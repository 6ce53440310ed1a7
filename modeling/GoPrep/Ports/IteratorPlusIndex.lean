import GoPrep.Ports.IndexRecord
import GoPrep.Verified.RealTime
import GoPrep.Verified.SortedMap
import GoPrep.Verified.ThreadTable
import GoPrep.Verified.Transition

/-!
# The index over an append-only file

A port of `indexImpl` in `src/iterator_plus_index.cpp`.  `Index` holds the
file, the append position, the map from ids to offsets and the life-cycle
fields, with the history of appends and of map accesses.  A call stands at a
program counter of its own operation; `Moves` says what each operation does
between two of them, a critical section being one move made while holding its
lock.  A lock is held by the calls that stand in its sections, so it is free
when no call stands in a conflicting one.

`pwrite` may fail, write a strict prefix of the line, or write all of it; one
that succeeds ends at an `off_t`, so `writeOffset` never wraps and is a
natural number.  Fewer than `2^31` calls are in flight, so `inFlight` does
not overflow.  An iterator belongs to the caller of its `Query`, whose calls
of `Next` and `Close` are moves of that `Query`.
-/

namespace GoPrep.Ports.IteratorPlusIndex

open GoPrep.Ports.IndexRecord
open GoPrep.Verified.ByteFile
open GoPrep.Verified.RealTime
open GoPrep.Verified.SortedMap
open GoPrep.Verified.Transition

instance uint64LinearOrder : LinearOrder UInt64 where
  le_refl := UInt64.le_refl
  le_trans _ _ _ := UInt64.le_trans
  le_antisymm _ _ := UInt64.le_antisymm
  le_total := UInt64.le_total
  lt_iff_le_not_ge _ _ := by
    rw [UInt64.le_iff_toNat_le, UInt64.le_iff_toNat_le,
      UInt64.lt_iff_toNat_lt]
    omega
  toDecidableLE := inferInstance
  toDecidableEq := inferInstance
  toDecidableLT := inferInstance

/-! ## Operations -/

/-- How an `Insert` ends; `inserted` keeps its local `offset`. -/
inductive InsertResult
  | rejected
  | failed
  | inserted (offset : Nat)
  deriving DecidableEq, Repr

/-- The value `Insert` returns. -/
def InsertResult.code : InsertResult → Int
  | .rejected => 1
  | .failed => 2
  | .inserted _ => 0

/-- Where an `Insert` stands.  The counters in `-ing` hold a lock: `lifeMu`
in `entering` and `leaving`, `writeMu` in `appending`, `idxMu` in
`updating`. -/
inductive InsertPc
  | enter
  | entering
  | append
  | appending
  | update (offset : Nat)
  | updating (offset : Nat)
  | leave (result : InsertResult)
  | leaving (result : InsertResult)
  | returned (result : InsertResult)
  deriving DecidableEq, Repr

/-- Where a `Query` stands; `traversing` holds `idxMu` shared. -/
inductive QueryPc
  | enter
  | entering
  | traverse
  | traversing
  | leave (fileOffsets : List Nat)
  | leaving (fileOffsets : List Nat)
  | returned (admitted : Bool) (iter : Iterator)
  deriving DecidableEq, Repr

/-- Where a `Close` stands; `locked` and `relocked` hold `lifeMu`. -/
inductive ClosePc
  | lock
  | locked
  | asleep
  | notified
  | relocked
  | returned
  deriving DecidableEq, Repr

inductive Call
  | insert (id : UInt64) (text : Bytes) (pc : InsertPc)
  | query (minId : UInt64) (limit : Int) (pc : QueryPc)
  | close (pc : ClosePc)
  deriving DecidableEq, Repr

inductive Lock
  | lifeMu
  | writeMu
  | idxMuShared
  | idxMuUnique
  deriving DecidableEq, Repr

/-- Two calls may not hold these at once. -/
def Lock.conflicts : Lock → Lock → Bool
  | .lifeMu, .lifeMu => true
  | .writeMu, .writeMu => true
  | .idxMuUnique, .idxMuUnique => true
  | .idxMuUnique, .idxMuShared => true
  | .idxMuShared, .idxMuUnique => true
  | _, _ => false

namespace Call

/-- The lock a call holds. -/
def lock : Call → Option Lock
  | .insert _ _ .entering => some .lifeMu
  | .insert _ _ .appending => some .writeMu
  | .insert _ _ (.updating _) => some .idxMuUnique
  | .insert _ _ (.leaving _) => some .lifeMu
  | .query _ _ .entering => some .lifeMu
  | .query _ _ .traversing => some .idxMuShared
  | .query _ _ (.leaving _) => some .lifeMu
  | .close .locked => some .lifeMu
  | .close .relocked => some .lifeMu
  | _ => none

/-- `notify_all` on one call. -/
def wake : Call → Call
  | .close .asleep => .close .notified
  | call => call

def hasReturned : Call → Bool
  | .insert _ _ (.returned _) => true
  | .query _ _ (.returned _ _) => true
  | .close .returned => true
  | _ => false

/-- A wake only takes a `Close` from its sleep to its notification. -/
theorem wake_eq {β : Sort*} (f : Call → β)
    (h : f (.close .notified) = f (.close .asleep)) (call : Call) :
    f call.wake = f call := by
  unfold wake
  split
  · exact h
  · rfl

@[simp] theorem hasReturned_wake (call : Call) :
    call.wake.hasReturned = call.hasReturned :=
  call.wake_eq hasReturned rfl

end Call

/-! ## The index -/

/-- What a call did to the index at the point where it took effect. -/
inductive Effect
  | inserted (r : Record) (offset : Nat)
  | queried
  deriving DecidableEq, Repr

structure Index where
  file : Bytes
  writeOffset : Nat
  indexMap : OrderedMap UInt64 Nat
  inFlight : Int
  closed : Bool
  /-- The appends that succeeded, with the calls that made them. -/
  log : List (Nat × Record)
  /-- The map updates and traversals. -/
  order : List (Nat × Effect)

namespace Index

/-- `FileData` truncates the file. -/
def initial : Index :=
  { file := []
    writeOffset := 0
    indexMap := .empty
    inFlight := 0
    closed := false
    log := []
    order := [] }

/-- `enter` when not closed. -/
def enter (x : Index) : Index :=
  { x with inFlight := x.inFlight + 1 }

/-- `leave`. -/
def leave (x : Index) : Index :=
  { x with inFlight := x.inFlight - 1 }

/-- A `pwrite` of a strict prefix of the line, which `Insert` gives up on. -/
def appendShort (x : Index) (r : Record) (written : Nat) : Index :=
  { x with file := pwrite x.file x.writeOffset (r.line.take written) }

/-- A `pwrite` of the whole line. -/
def append (x : Index) (c : Nat) (r : Record) : Index :=
  { x with
    file := pwrite x.file x.writeOffset r.line
    writeOffset := x.writeOffset + r.line.length
    log := x.log ++ [(c, r)] }

/-- `indexMap[id] = offset`. -/
def update (x : Index) (c : Nat) (r : Record) (offset : Nat) : Index :=
  { x with
    indexMap := x.indexMap.insert r.id offset
    order := x.order ++ [(c, .inserted r offset)] }

/-- The traversal loop of `Query`, from `upper_bound` on. -/
def traverse : List (UInt64 × Nat) → Int → Int → List Nat
  | [], _, _ => []
  | e :: rest, count, limit =>
      if count < limit then e.2 :: traverse rest (count + 1) limit else []

/-- The traversal loop stops at the limit or at the end. -/
theorem traverse_eq (es : List (UInt64 × Nat)) (count limit : Int) :
    traverse es count limit =
      (es.take (limit - count).toNat).map Prod.snd := by
  induction es generalizing count with
  | nil => simp [traverse]
  | cons e rest ih =>
      rw [traverse]
      split
      next hlt =>
        obtain ⟨n, hn⟩ : ∃ n, (limit - count).toNat = n + 1 :=
          ⟨(limit - count).toNat - 1, by omega⟩
        have hrest : (limit - (count + 1)).toNat = n := by omega
        rw [ih, hrest, hn, List.take_succ_cons, List.map_cons]
      next hge =>
        have hzero : (limit - count).toNat = 0 := by omega
        rw [hzero]
        rfl

/-- The offsets a `Query` collects. -/
def collect (x : Index) (minId : UInt64) (limit : Int) : List Nat :=
  traverse (x.indexMap.upperBound minId) 0 limit

def recordQuery (x : Index) (c : Nat) : Index :=
  { x with order := x.order ++ [(c, .queried)] }

end Index

/-! ## Moves -/

/-- Call `c` moves from the first `Call` to the second; the flag tells
whether it notifies the sleepers of `cv`. -/
inductive Moves (x : Index) (c : Nat) : Call → Call → Index → Bool → Prop
  -- `Insert`
  | insertEnters (id : UInt64) (text : Bytes) :
      Moves x c (.insert id text .enter) (.insert id text .entering) x false
  | insertRejected (id : UInt64) (text : Bytes) : x.closed = true →
      Moves x c (.insert id text .entering)
        (.insert id text (.returned .rejected)) x false
  | insertAdmitted (id : UInt64) (text : Bytes) : x.closed = false →
      Moves x c (.insert id text .entering) (.insert id text .append)
        x.enter false
  | insertLocksFile (id : UInt64) (text : Bytes) :
      Moves x c (.insert id text .append) (.insert id text .appending)
        x false
  | appends (id : UInt64) (text : Bytes) :
      Moves x c (.insert id text .appending)
        (.insert id text (.update x.writeOffset)) (x.append c ⟨id, text⟩)
        false
  | appendFails (id : UInt64) (text : Bytes) :
      Moves x c (.insert id text .appending)
        (.insert id text (.leave .failed)) x false
  | appendsShort (id : UInt64) (text : Bytes) (written : Nat) :
      written < (Record.mk id text).line.length →
      Moves x c (.insert id text .appending)
        (.insert id text (.leave .failed)) (x.appendShort ⟨id, text⟩ written)
        false
  | insertLocksMap (id : UInt64) (text : Bytes) (offset : Nat) :
      Moves x c (.insert id text (.update offset))
        (.insert id text (.updating offset)) x false
  | updates (id : UInt64) (text : Bytes) (offset : Nat) :
      Moves x c (.insert id text (.updating offset))
        (.insert id text (.leave (.inserted offset)))
        (x.update c ⟨id, text⟩ offset) false
  | insertLeaves (id : UInt64) (text : Bytes) (result : InsertResult) :
      Moves x c (.insert id text (.leave result))
        (.insert id text (.leaving result)) x false
  | insertLeft (id : UInt64) (text : Bytes) (result : InsertResult) :
      Moves x c (.insert id text (.leaving result))
        (.insert id text (.returned result)) x.leave
        (decide (x.leave.inFlight = 0))
  -- `Query`
  | queryEnters (minId : UInt64) (limit : Int) :
      Moves x c (.query minId limit .enter) (.query minId limit .entering)
        x false
  | queryRejected (minId : UInt64) (limit : Int) : x.closed = true →
      Moves x c (.query minId limit .entering)
        (.query minId limit (.returned false (.new []))) x false
  | queryAdmitted (minId : UInt64) (limit : Int) : x.closed = false →
      Moves x c (.query minId limit .entering)
        (.query minId limit .traverse) x.enter false
  | queryLocksMap (minId : UInt64) (limit : Int) :
      Moves x c (.query minId limit .traverse)
        (.query minId limit .traversing) x false
  | traverses (minId : UInt64) (limit : Int) :
      Moves x c (.query minId limit .traversing)
        (.query minId limit (.leave (x.collect minId limit)))
        (x.recordQuery c) false
  | queryLeaves (minId : UInt64) (limit : Int) (fileOffsets : List Nat) :
      Moves x c (.query minId limit (.leave fileOffsets))
        (.query minId limit (.leaving fileOffsets)) x false
  | queryLeft (minId : UInt64) (limit : Int) (fileOffsets : List Nat) :
      Moves x c (.query minId limit (.leaving fileOffsets))
        (.query minId limit (.returned true (.new fileOffsets))) x.leave
        (decide (x.leave.inFlight = 0))
  -- `Close`, whose wait evaluates its predicate before and after sleeping
  | closeLocks : Moves x c (.close .lock) (.close .locked) x false
  | closeReturns : x.inFlight = 0 →
      Moves x c (.close .locked) (.close .returned) { x with closed := true }
        false
  | closeWaits : x.inFlight ≠ 0 →
      Moves x c (.close .locked) (.close .asleep) { x with closed := true }
        false
  | closeRelocks : Moves x c (.close .notified) (.close .relocked) x false
  | closeReturnsWoken : x.inFlight = 0 →
      Moves x c (.close .relocked) (.close .returned) x false
  | closeWaitsAgain : x.inFlight ≠ 0 →
      Moves x c (.close .relocked) (.close .asleep) x false
  -- the iterator
  | nexts (minId : UInt64) (limit : Int) (admitted : Bool)
      (iter : Iterator) : iter.reading = none →
      Moves x c (.query minId limit (.returned admitted iter))
        (.query minId limit (.returned admitted iter.next)) x false
  | preads (minId : UInt64) (limit : Int) (admitted : Bool)
      (iter : Iterator) (reading : Reading) (n : Nat) :
      iter.reading = some reading → 0 < n → n ≤ chunkSize →
      Moves x c (.query minId limit (.returned admitted iter))
        (.query minId limit (.returned admitted
          (iter.readChunk reading (pread x.file reading.pos n)))) x false
  | closesIterator (minId : UInt64) (limit : Int) (admitted : Bool)
      (iter : Iterator) : iter.reading = none →
      Moves x c (.query minId limit (.returned admitted iter))
        (.query minId limit (.returned admitted iter.close)) x false

/-! ## Runs -/

structure State where
  index : Index
  calls : List Call
  history : List Event

def State.initial : State :=
  { index := .initial, calls := [], history := [] }

/-- No call stands in the way of the lock `call` needs where it stands. -/
def State.mayHold (s : State) (call : Call) : Bool :=
  match call.lock with
  | none => true
  | some lock => s.calls.all fun other =>
      match other.lock with
      | none => true
      | some held => !lock.conflicts held

/-- A call begins. -/
def State.begin (s : State) (call : Call) : State :=
  { s with
    calls := s.calls ++ [call]
    history := s.history ++ [.invoke s.calls.length] }

/-- The response of a call that has returned by moving. -/
def respond (c : Nat) (old new : Call) : List Event :=
  if old.hasReturned = false ∧ new.hasReturned = true then [.respond c]
  else []

inductive Action
  | insert (id : UInt64) (text : Bytes)
  | query (minId : UInt64) (limit : Int)
  | close
  | wakeSpuriously (c : Nat)
  | move (c : Nat)
  | preadFails (c : Nat)
  deriving DecidableEq, Repr

inductive Step : State → Action → State → Prop
  | insert (s : State) (id : UInt64) (text : Bytes) :
      Step s (.insert id text) (s.begin (.insert id text .enter))
  | query (s : State) (minId : UInt64) (limit : Int) :
      Step s (.query minId limit) (s.begin (.query minId limit .enter))
  | close (s : State) : Step s .close (s.begin (.close .lock))
  | wakeSpuriously (s : State) (c : Nat) (call : Call) :
      s.calls[c]? = some call →
      Step s (.wakeSpuriously c)
        { s with calls := s.calls.set c call.wake }
  | move (s : State) (c : Nat) (old new : Call) (index : Index)
      (notify : Bool) :
      s.calls[c]? = some old → Moves s.index c old new index notify →
      s.mayHold new = true →
      Step s (.move c)
        { index := index
          calls :=
            if notify then (s.calls.set c new).map Call.wake
            else s.calls.set c new
          history := s.history ++ respond c old new }
  -- a `pread` that returns a negative count
  | preadFails (s : State) (c : Nat) (minId : UInt64) (limit : Int)
      (admitted : Bool) (iter : Iterator) :
      s.calls[c]? = some (.query minId limit (.returned admitted iter)) →
      iter.reading ≠ none →
      Step s (.preadFails c)
        { s with
          calls := s.calls.set c
            (.query minId limit
              (.returned admitted (iter.answer .failed))) }

end GoPrep.Ports.IteratorPlusIndex
