import GoPrep.Verified.Ring
import GoPrep.Verified.ThreadTable
import GoPrep.Verified.Transition

/-!
# The fixed-size blocking queue

A port of `BoundedQueue` in
`src/go-concurrency-practice/fixed-size-bounded-blocking-queue/main.go`: a
ring of `max_capacity` slots with two wrapping indices and a counter, guarded
by one mutex and one condition variable on which full-queue writers and
empty-queue readers both wait.

`enqueue` and `dequeue` are the parts of the two methods that follow their
waiting loops; they fail where Go would panic.  `Step` interleaves any number
of calls.  A call holds the mutex from `lock` to the step that waits or
finishes, and `Invariant.owner` is the mutual exclusion that lets one step
stand for one critical section.  `Wait` may return spuriously.

## Main results

* `Represents.enqueue`, `Represents.dequeue` — on a ring that represents a
  bounded FIFO list, the two bodies are append and head removal, and neither
  panics.
* `boundedQueue_refines_fifo` — in every reachable state, for every capacity
  and every interleaving, the live slots are the stored values not yet
  returned, in the order they were stored.
-/

namespace GoPrep.Ports.BlockingQueue

open GoPrep.Verified.Ring
open GoPrep.Verified.ThreadTable
open GoPrep.Verified.Transition

/-- The run-time panics of the operations the queue uses. -/
inductive RuntimePanic
  | makeSliceLen
  | indexOutOfRange
  | integerDivideByZero
  deriving DecidableEq, Repr

/-- The data fields of the Go struct.  `Element` stands for `interface{}`,
whose zero value `nil` is `default`.  The counters stay between zero and the
capacity, so `int` does not wrap and is an integer here. -/
structure BoundedQueue (Element : Type) where
  data : List Element
  head : Int
  tail : Int
  count : Int
  maxCapacity : Int
  deriving DecidableEq, Repr

variable {Element : Type}

/-- `newBoundedQueue`; `make` panics on a negative length.  Allocation is
taken to succeed. -/
def newBoundedQueue [Inhabited Element] (capacity : Int) :
    Except RuntimePanic (BoundedQueue Element) :=
  if capacity < 0 then .error .makeSliceLen
  else .ok
    { data := List.replicate capacity.toNat default
      head := 0
      tail := 0
      count := 0
      maxCapacity := capacity }

/-- `slots[i] = el`. -/
def writeSlot (slots : List Element) (i : Int) (el : Element) :
    Except RuntimePanic (List Element) :=
  if 0 ≤ i ∧ i < slots.length then .ok (slots.set i.toNat el)
  else .error .indexOutOfRange

/-- `slots[i]`. -/
def readSlot (slots : List Element) (i : Int) :
    Except RuntimePanic Element :=
  if i < 0 then .error .indexOutOfRange
  else match slots[i.toNat]? with
    | some el => .ok el
    | none => .error .indexOutOfRange

/-- `a % b`, which truncates toward zero. -/
def remainder (a b : Int) : Except RuntimePanic Int :=
  if b = 0 then .error .integerDivideByZero else .ok (a.tmod b)

namespace BoundedQueue

/-- The loop condition of `Enqueue`. -/
def isFull (q : BoundedQueue Element) : Bool :=
  decide (q.count ≥ q.maxCapacity)

/-- The loop condition of `Dequeue`. -/
def isEmpty (q : BoundedQueue Element) : Bool :=
  decide (q.count = 0)

/-- `Enqueue` after its loop. -/
def enqueue (q : BoundedQueue Element) (el : Element) :
    Except RuntimePanic (BoundedQueue Element) := do
  let data ← writeSlot q.data q.tail el
  let tail ← remainder (q.tail + 1) q.maxCapacity
  return { q with data := data, tail := tail, count := q.count + 1 }

/-- `Dequeue` after its loop. -/
def dequeue (q : BoundedQueue Element) :
    Except RuntimePanic (Element × BoundedQueue Element) := do
  let elementRead ← readSlot q.data q.head
  let head ← remainder (q.head + 1) q.maxCapacity
  return (elementRead, { q with head := head, count := q.count - 1 })

/-- What the slots `data[head]`, `data[head+1 mod cap]`, …, `count` of them,
hold; `none` where an index leaves the slice. -/
def liveSlots (q : BoundedQueue Element) : List (Option Element) :=
  (List.range q.count.toNat).map fun (i : Nat) =>
    q.data[((q.head + i) % q.maxCapacity).toNat]?

end BoundedQueue

/-! ## The ring represents a list -/

/-- `q` holds exactly `contents`, the first of them at slot `start`. -/
structure Represents (q : BoundedQueue Element) (start : Nat)
    (contents : List Element) : Prop where
  maxCapacity_eq : q.maxCapacity = q.data.length
  head_eq : q.head = start
  tail_eq : q.tail = ((start + contents.length) % q.data.length : Nat)
  count_eq : q.count = contents.length
  start_lt : q.data.length ≠ 0 → start < q.data.length
  ring : RingHolds q.data start contents

theorem writeSlot_natCast (slots : List Element) (i : Nat) (el : Element)
    (hi : i < slots.length) :
    writeSlot slots (i : Int) el = .ok (slots.set i el) := by
  have hbounds : (0 : Int) ≤ i ∧ (i : Int) < slots.length := by omega
  rw [writeSlot, if_pos hbounds, Int.toNat_natCast]

theorem readSlot_natCast (slots : List Element) (i : Nat) (el : Element)
    (hi : slots[i]? = some el) : readSlot slots (i : Int) = .ok el := by
  have hnonneg : ¬ (i : Int) < 0 := by omega
  rw [readSlot, if_neg hnonneg, Int.toNat_natCast, hi]

theorem remainder_natCast (a b : Nat) (hb : b ≠ 0) :
    remainder ((a : Int) + 1) b = .ok (((a + 1) % b : Nat) : Int) := by
  have hne : (b : Int) ≠ 0 := by omega
  rw [remainder, if_neg hne]
  rfl

/-- `newBoundedQueue` accepts every non-negative capacity and represents the
empty list. -/
theorem newBoundedQueue_represents [Inhabited Element] (capacity : Int)
    (hcapacity : 0 ≤ capacity) :
    ∃ q : BoundedQueue Element, newBoundedQueue capacity = .ok q ∧
      q.maxCapacity = capacity ∧ Represents q 0 [] := by
  have hnonneg : ¬ capacity < 0 := by omega
  refine ⟨_, if_neg hnonneg, rfl, ?_⟩
  constructor
  · simp only [List.length_replicate]
    omega
  · rfl
  · simp
  · rfl
  · exact Nat.pos_of_ne_zero
  · exact ringHolds_nil _ _

namespace Represents

variable {q : BoundedQueue Element} {start : Nat} {contents : List Element}

/-- **The body of `Enqueue` on a queue that is not full appends.** -/
theorem enqueue (h : Represents q start contents) (hroom : q.isFull = false)
    (el : Element) :
    ∃ q', q.enqueue el = .ok q' ∧ q'.maxCapacity = q.maxCapacity ∧
      Represents q' start (contents ++ [el]) := by
  have hlt : contents.length < q.data.length := by
    have hcount := of_decide_eq_false hroom
    rw [h.count_eq, h.maxCapacity_eq] at hcount
    omega
  have hslot : (start + contents.length) % q.data.length < q.data.length :=
    Nat.mod_lt _ (by omega)
  have hwrite := writeSlot_natCast q.data _ el hslot
  have htail := remainder_natCast
    ((start + contents.length) % q.data.length) q.data.length (by omega)
  rw [← h.tail_eq] at hwrite htail
  rw [← h.maxCapacity_eq] at htail
  have hbody : q.enqueue el = .ok
      { q with
        data := q.data.set ((start + contents.length) % q.data.length) el
        tail := (((start + contents.length) % q.data.length + 1) %
          q.data.length : Nat)
        count := q.count + 1 } := by
    rw [BoundedQueue.enqueue, hwrite, htail]
    rfl
  refine ⟨_, hbody, rfl, ?_⟩
  constructor
  · simpa using h.maxCapacity_eq
  · exact h.head_eq
  · simp [Nat.add_assoc]
  · simpa using h.count_eq
  · simpa using h.start_lt
  · exact h.ring.push hlt el

/-- **The body of `Dequeue` on a queue that is not empty reads the first
element and removes it.** -/
theorem dequeue (h : Represents q start contents)
    (hsome : q.isEmpty = false) :
    ∃ el rest q', contents = el :: rest ∧ q.dequeue = .ok (el, q') ∧
      q'.maxCapacity = q.maxCapacity ∧
      Represents q' ((start + 1) % q.data.length) rest := by
  have hcount := of_decide_eq_false hsome
  rw [h.count_eq] at hcount
  cases contents with
  | nil => simp at hcount
  | cons el rest =>
      have hfits := h.ring.fits
      rw [List.length_cons] at hfits
      have hstart := h.start_lt (by omega)
      have hfront := h.ring.front
      rw [Nat.mod_eq_of_lt hstart] at hfront
      have hread := readSlot_natCast q.data start el hfront
      have hhead := remainder_natCast start q.data.length (by omega)
      rw [← h.head_eq] at hread hhead
      rw [← h.maxCapacity_eq] at hhead
      have hbody : q.dequeue = .ok (el,
          { q with
            head := ((start + 1) % q.data.length : Nat)
            count := q.count - 1 }) := by
        rw [BoundedQueue.dequeue, hread, hhead]
        rfl
      refine ⟨el, rest, _, rfl, hbody, rfl, ?_⟩
      constructor
      · exact h.maxCapacity_eq
      · rfl
      · rw [h.tail_eq, List.length_cons, Nat.mod_add_mod, Nat.add_assoc,
          Nat.add_comm 1]
      · have hlength := h.count_eq
        rw [List.length_cons] at hlength
        simp only
        omega
      · exact fun hne => Nat.mod_lt _ (Nat.pos_of_ne_zero hne)
      · exact h.ring.pop

theorem count_bounds (h : Represents q start contents) :
    0 ≤ q.count ∧ q.count ≤ q.maxCapacity := by
  have hfits := h.ring.fits
  rw [h.count_eq, h.maxCapacity_eq]
  omega

theorem tail_position (h : Represents q start contents) :
    q.tail = (q.head + q.count) % q.maxCapacity := by
  rw [h.tail_eq, h.head_eq, h.count_eq, h.maxCapacity_eq]
  exact Int.natCast_mod _ _

theorem liveSlots_eq (h : Represents q start contents) :
    q.liveSlots = contents.map some := by
  rw [BoundedQueue.liveSlots, h.count_eq, h.head_eq, h.maxCapacity_eq,
    Int.toNat_natCast, ← h.ring.map_range]
  apply List.map_congr_left
  intro i _
  rw [← Int.natCast_add, ← Int.natCast_mod, Int.toNat_natCast]

end Represents

/-! ## Interleaved calls -/

/-- A method call with its argument. -/
inductive Op (Element : Type)
  | enqueue (el : Element)
  | dequeue
  deriving DecidableEq, Repr

/-- Where a call stands. -/
inductive Pc (Element : Type)
  /-- Before `mu.Lock()`. -/
  | start
  /-- Holding `mu`, about to evaluate the loop condition. -/
  | locked
  /-- Inside `Wait`, without `mu`. -/
  | asleep
  /-- Woken inside `Wait`, about to take `mu` again. -/
  | notified
  | returned (result : Option Element)
  | panicked (reason : RuntimePanic)
  deriving DecidableEq, Repr

structure Call (Element : Type) where
  op : Op Element
  pc : Pc Element
  deriving DecidableEq, Repr

/-- The effect of `Broadcast` on one call. -/
def Call.wake (call : Call Element) : Call Element :=
  match call.pc with
  | .asleep => { call with pc := .notified }
  | _ => call

/-- The queue, its mutex, the calls so far, and the history of values stored
and read, each with the call that did it. -/
structure State (Element : Type) where
  queue : BoundedQueue Element
  mu : Option Nat
  calls : List (Call Element)
  enqueued : List (Nat × Element)
  dequeued : List (Nat × Element)
  deriving DecidableEq, Repr

def State.initial (queue : BoundedQueue Element) : State Element :=
  { queue := queue, mu := none, calls := [], enqueued := [], dequeued := [] }

/-- Call `c` moves to `pc`. -/
def State.goto (s : State Element) (c : Nat) (op : Op Element)
    (pc : Pc Element) : State Element :=
  { s with calls := s.calls.set c ⟨op, pc⟩ }

/-- Call `c` broadcasts, releases the mutex and returns. -/
def State.finish (s : State Element) (c : Nat) (op : Op Element)
    (result : Option Element) : State Element :=
  { s with
    mu := none
    calls := (s.calls.set c ⟨op, .returned result⟩).map Call.wake }

/-- The loop condition of a method. -/
def blocks (q : BoundedQueue Element) : Op Element → Bool
  | .enqueue _ => q.isFull
  | .dequeue => q.isEmpty

inductive Action (Element : Type)
  | begin (op : Op Element)
  | lock (c : Nat)
  | wait (c : Nat)
  | wakeSpuriously (c : Nat)
  | finish (c : Nat)

/-- One step of some call. -/
inductive Step : State Element → Action Element → State Element → Prop
  | begin (s : State Element) (op : Op Element) :
      Step s (.begin op) { s with calls := s.calls ++ [⟨op, .start⟩] }
  | lock (s : State Element) (c : Nat) (op : Op Element) (pc : Pc Element) :
      s.calls[c]? = some ⟨op, pc⟩ → pc = .start ∨ pc = .notified →
      s.mu = none →
      Step s (.lock c) { s.goto c op .locked with mu := some c }
  | wait (s : State Element) (c : Nat) (op : Op Element) :
      s.calls[c]? = some ⟨op, .locked⟩ → blocks s.queue op = true →
      Step s (.wait c) { s.goto c op .asleep with mu := none }
  | wakeSpuriously (s : State Element) (c : Nat) (op : Op Element) :
      s.calls[c]? = some ⟨op, .asleep⟩ →
      Step s (.wakeSpuriously c) (s.goto c op .notified)
  | enqueue (s : State Element) (c : Nat) (el : Element)
      (queue : BoundedQueue Element) :
      s.calls[c]? = some ⟨.enqueue el, .locked⟩ → s.queue.isFull = false →
      s.queue.enqueue el = .ok queue →
      Step s (.finish c)
        { s.finish c (.enqueue el) none with
          queue := queue
          enqueued := s.enqueued ++ [(c, el)] }
  | enqueuePanic (s : State Element) (c : Nat) (el : Element)
      (reason : RuntimePanic) :
      s.calls[c]? = some ⟨.enqueue el, .locked⟩ → s.queue.isFull = false →
      s.queue.enqueue el = .error reason →
      -- the deferred `Unlock` still runs
      Step s (.finish c)
        { s.goto c (.enqueue el) (.panicked reason) with mu := none }
  | dequeue (s : State Element) (c : Nat) (elementRead : Element)
      (queue : BoundedQueue Element) :
      s.calls[c]? = some ⟨.dequeue, .locked⟩ → s.queue.isEmpty = false →
      s.queue.dequeue = .ok (elementRead, queue) →
      Step s (.finish c)
        { s.finish c .dequeue (some elementRead) with
          queue := queue
          dequeued := s.dequeued ++ [(c, elementRead)] }
  | dequeuePanic (s : State Element) (c : Nat) (reason : RuntimePanic) :
      s.calls[c]? = some ⟨.dequeue, .locked⟩ → s.queue.isEmpty = false →
      s.queue.dequeue = .error reason →
      Step s (.finish c)
        { s.goto c .dequeue (.panicked reason) with mu := none }

/-! ## The invariant -/

/-- The value an `Enqueue` that returned has stored. -/
def Call.stored (call : Call Element) : Option Element :=
  match call.op, call.pc with
  | .enqueue el, .returned _ => some el
  | _, _ => none

/-- The value a `Dequeue` that returned has answered. -/
def Call.answered (call : Call Element) : Option Element :=
  match call.op, call.pc with
  | .dequeue, .returned result => result
  | _, _ => none

def Call.holdsMu (call : Call Element) : Bool :=
  match call.pc with
  | .locked => true
  | _ => false

def Call.hasPanicked (call : Call Element) : Prop :=
  ∃ reason, call.pc = .panicked reason

@[simp] theorem Call.stored_wake (call : Call Element) :
    call.wake.stored = call.stored := by
  obtain ⟨op, pc⟩ := call
  cases op <;> cases pc <;> rfl

@[simp] theorem Call.answered_wake (call : Call Element) :
    call.wake.answered = call.answered := by
  obtain ⟨op, pc⟩ := call
  cases op <;> cases pc <;> rfl

@[simp] theorem Call.holdsMu_wake (call : Call Element) :
    call.wake.holdsMu = call.holdsMu := by
  obtain ⟨op, pc⟩ := call
  cases pc <;> rfl

theorem Call.hasPanicked_wake (call : Call Element) :
    call.wake.hasPanicked ↔ call.hasPanicked := by
  obtain ⟨op, pc⟩ := call
  cases pc <;> simp [Call.wake, Call.hasPanicked]

/-- `contents` is what the queue holds and what the history leaves over. -/
structure Holds (capacity : Nat) (s : State Element)
    (contents : List Element) : Prop where
  maxCapacity_eq : s.queue.maxCapacity = capacity
  represents : ∃ start, Represents s.queue start contents
  fifo : Reaches (FifoStep capacity) [] contents
  enqueued_eq : s.enqueued.map Prod.snd = s.dequeued.map Prod.snd ++ contents

structure Invariant (capacity : Nat) (s : State Element) : Prop where
  holds : ∃ contents, Holds capacity s contents
  stored : Records Call.stored s.calls s.enqueued
  answered : Records Call.answered s.calls s.dequeued
  owner : OwnedBy Call.holdsMu s.calls s.mu
  noPanic : ∀ call ∈ s.calls, ¬ call.hasPanicked

theorem invariant_initial [Inhabited Element] (capacity : Nat)
    {q : BoundedQueue Element} (hmax : q.maxCapacity = capacity)
    (hq : Represents q 0 []) :
    Invariant capacity (State.initial q) where
  holds := ⟨[], hmax, ⟨0, hq⟩, .refl, rfl⟩
  stored := .nil _
  answered := .nil _
  owner := .nil _
  noPanic := by simp [State.initial]

namespace Invariant

variable {capacity : Nat} {s : State Element}

/-- A call that only changes where it waits. -/
theorem move (h : Invariant capacity s) {c : Nat} {op : Op Element}
    {old : Pc Element} (new : Pc Element) {mu : Option Nat}
    (hc : s.calls[c]? = some ⟨op, old⟩)
    (hstored : Call.stored ⟨op, new⟩ = Call.stored ⟨op, old⟩)
    (hanswered : Call.answered ⟨op, new⟩ = Call.answered ⟨op, old⟩)
    (hpanic : ¬ Call.hasPanicked ⟨op, new⟩)
    (howner : OwnedBy Call.holdsMu (s.calls.set c ⟨op, new⟩) mu) :
    Invariant capacity { s.goto c op new with mu := mu } where
  holds := by
    obtain ⟨contents, hmax, hrep, hfifo, hlog⟩ := h.holds
    exact ⟨contents, hmax, hrep, hfifo, hlog⟩
  stored := h.stored.set hc _ hstored
  answered := h.answered.set hc _ hanswered
  owner := howner
  noPanic := forall_mem_set h.noPanic hpanic

theorem begin (h : Invariant capacity s) (op : Op Element) :
    Invariant capacity { s with calls := s.calls ++ [⟨op, .start⟩] } where
  holds := by
    obtain ⟨contents, hmax, hrep, hfifo, hlog⟩ := h.holds
    exact ⟨contents, hmax, hrep, hfifo, hlog⟩
  stored := h.stored.concat (by cases op <;> rfl)
  answered := h.answered.concat (by cases op <;> rfl)
  owner := h.owner.concat rfl
  noPanic := forall_mem_concat h.noPanic (by simp [Call.hasPanicked])

/-- What the calls look like once the holder has finished without a panic. -/
theorem finish_calls (h : Invariant capacity s) {c : Nat} {op : Op Element}
    (hc : s.calls[c]? = some ⟨op, .locked⟩) (result : Option Element) :
    OwnedBy Call.holdsMu (s.finish c op result).calls none ∧
      ∀ call ∈ (s.finish c op result).calls, ¬ call.hasPanicked := by
  constructor
  · exact (h.owner.release hc rfl rfl).congr
      (map_map_of_eq _ Call.holdsMu_wake _)
  · refine forall_mem_map (forall_mem_set h.noPanic ?_) fun call hcall => ?_
    · simp [Call.hasPanicked]
    · rwa [Call.hasPanicked_wake]

theorem enqueue (h : Invariant capacity s) {c : Nat} {el : Element}
    {queue : BoundedQueue Element}
    (hc : s.calls[c]? = some ⟨.enqueue el, .locked⟩)
    (hroom : s.queue.isFull = false) (hbody : s.queue.enqueue el = .ok queue) :
    Invariant capacity
      { s.finish c (.enqueue el) none with
        queue := queue
        enqueued := s.enqueued ++ [(c, el)] } where
  holds := by
    obtain ⟨contents, hmax, ⟨start, hrep⟩, hfifo, hlog⟩ := h.holds
    obtain ⟨q', hq', hmax', hrep'⟩ := hrep.enqueue hroom el
    obtain rfl : q' = queue := by simpa [hq'] using hbody
    have hlt : contents.length < capacity := by
      have hcount := of_decide_eq_false hroom
      rw [hrep.count_eq, hmax] at hcount
      omega
    refine ⟨contents ++ [el], hmax'.trans hmax, ⟨start, hrep'⟩,
      hfifo.tail (.put hlt), ?_⟩
    simp [hlog, State.finish]
  stored := (h.stored.set_concat hc rfl rfl).map Call.stored_wake
  answered :=
    (h.answered.set hc ⟨.enqueue el, .returned none⟩ rfl).map Call.answered_wake
  owner := (h.finish_calls hc none).1
  noPanic := (h.finish_calls hc none).2

theorem dequeue (h : Invariant capacity s) {c : Nat} {elementRead : Element}
    {queue : BoundedQueue Element}
    (hc : s.calls[c]? = some ⟨.dequeue, .locked⟩)
    (hsome : s.queue.isEmpty = false)
    (hbody : s.queue.dequeue = .ok (elementRead, queue)) :
    Invariant capacity
      { s.finish c .dequeue (some elementRead) with
        queue := queue
        dequeued := s.dequeued ++ [(c, elementRead)] } where
  holds := by
    obtain ⟨contents, hmax, ⟨start, hrep⟩, hfifo, hlog⟩ := h.holds
    obtain ⟨el, rest, q', rfl, hq', hmax', hrep'⟩ := hrep.dequeue hsome
    obtain ⟨rfl, rfl⟩ : el = elementRead ∧ q' = queue := by
      simpa [hq'] using hbody
    refine ⟨rest, hmax'.trans hmax, ⟨_, hrep'⟩, hfifo.tail .get, ?_⟩
    simp [hlog, State.finish]
  stored :=
    (h.stored.set hc ⟨.dequeue, .returned (some elementRead)⟩ rfl).map
      Call.stored_wake
  answered := (h.answered.set_concat hc rfl rfl).map Call.answered_wake
  owner := (h.finish_calls hc _).1
  noPanic := (h.finish_calls hc _).2

/-- Neither body panics on a queue that is represented. -/
theorem enqueue_ne_error (h : Invariant capacity s) {el : Element}
    {reason : RuntimePanic} (hroom : s.queue.isFull = false) :
    s.queue.enqueue el ≠ .error reason := by
  obtain ⟨contents, -, ⟨start, hrep⟩, -⟩ := h.holds
  obtain ⟨q', hq', -⟩ := hrep.enqueue hroom el
  simp [hq']

theorem dequeue_ne_error (h : Invariant capacity s) {reason : RuntimePanic}
    (hsome : s.queue.isEmpty = false) :
    s.queue.dequeue ≠ .error reason := by
  obtain ⟨contents, -, ⟨start, hrep⟩, -⟩ := h.holds
  obtain ⟨el, rest, q', -, hq', -⟩ := hrep.dequeue hsome
  simp [hq']

/-- **Every step preserves the invariant.** -/
theorem step {a : Action Element} {t : State Element}
    (h : Invariant capacity s) (hstep : Step s a t) :
    Invariant capacity t := by
  cases hstep with
  | begin op => exact h.begin op
  | lock c op pc hc hpc hmu =>
      have howner := h.owner
      rw [hmu] at howner
      refine h.move .locked hc ?_ ?_ (by simp [Call.hasPanicked])
        (howner.acquire hc rfl)
      · rcases hpc with rfl | rfl <;> cases op <;> rfl
      · rcases hpc with rfl | rfl <;> cases op <;> rfl
  | wait c op hc _ =>
      exact h.move .asleep hc (by cases op <;> rfl)
        (by cases op <;> rfl) (by simp [Call.hasPanicked])
        (h.owner.release hc rfl rfl)
  | wakeSpuriously c op hc =>
      exact h.move .notified hc (by cases op <;> rfl)
        (by cases op <;> rfl) (by simp [Call.hasPanicked])
        (h.owner.congr (map_set_of_eq _ hc rfl))
  | enqueue c el queue hc hroom hbody => exact h.enqueue hc hroom hbody
  | enqueuePanic c el reason hc hroom hbody =>
      exact absurd hbody (h.enqueue_ne_error hroom)
  | dequeue c elementRead queue hc hsome hbody =>
      exact h.dequeue hc hsome hbody
  | dequeuePanic c reason hc hsome hbody =>
      exact absurd hbody (h.dequeue_ne_error hsome)

/-- **The invariant holds in every reachable state.** -/
theorem of_reaches [Inhabited Element] {capacity : Nat}
    {q : BoundedQueue Element}
    (hnew : newBoundedQueue (capacity : Int) = .ok q) {s : State Element}
    (hs : Reaches Step (State.initial q) s) : Invariant capacity s := by
  obtain ⟨q', hnew', hmax, hrep⟩ :
      ∃ q' : BoundedQueue Element, newBoundedQueue (capacity : Int) = .ok q' ∧
        q'.maxCapacity = capacity ∧ Represents q' 0 [] :=
    newBoundedQueue_represents capacity (by omega)
  obtain rfl : q' = q := Except.ok.inj (hnew'.symm.trans hnew)
  exact hs.invariant (fun _ _ _ h hstep => h.step hstep)
    (invariant_initial capacity hmax hrep)

end Invariant

/-! ## The refinement -/

/-- What holds of the ring in every reachable state. -/
structure RefinesFifo (capacity : Int) (s : State Element) : Prop where
  maxCapacity_eq : s.queue.maxCapacity = capacity
  count_nonneg : 0 ≤ s.queue.count
  count_le : s.queue.count ≤ s.queue.maxCapacity
  tail_eq : 0 < s.queue.maxCapacity →
    s.queue.tail = (s.queue.head + s.queue.count) % s.queue.maxCapacity
  /-- The live slots are the contents of a bounded FIFO queue, and the values
  stored are those read followed by these contents. -/
  live : ∃ contents, Reaches (FifoStep capacity.toNat) [] contents ∧
    s.queue.liveSlots = contents.map some ∧
    s.enqueued.map Prod.snd = s.dequeued.map Prod.snd ++ contents
  /-- The histories list every `Enqueue` and `Dequeue` that has returned,
  once, with its value. -/
  stored : Records Call.stored s.calls s.enqueued
  answered : Records Call.answered s.calls s.dequeued
  noPanic : ∀ call ∈ s.calls, ¬ call.hasPanicked

theorem Invariant.refinesFifo {capacity : Nat} {s : State Element}
    (h : Invariant capacity s) : RefinesFifo capacity s := by
  obtain ⟨contents, hmax, ⟨start, hrep⟩, hfifo, hlog⟩ := h.holds
  exact
    { maxCapacity_eq := hmax
      count_nonneg := hrep.count_bounds.1
      count_le := hrep.count_bounds.2
      tail_eq := fun _ => hrep.tail_position
      live := ⟨contents, by rwa [Int.toNat_natCast], hrep.liveSlots_eq, hlog⟩
      stored := h.stored
      answered := h.answered
      noPanic := h.noPanic }

/-- **The ring buffer refines a bounded FIFO queue.**  For every capacity and
every interleaving of `Enqueue` and `Dequeue` calls, the counter stays between
zero and the capacity, the tail is the wrapped sum of head and counter, the
live slots are the values stored and not yet read in the order they were
stored, and no call panics. -/
theorem boundedQueue_refines_fifo [Inhabited Element] (capacity : Int)
    (hcapacity : 0 ≤ capacity) :
    ∃ q : BoundedQueue Element, newBoundedQueue capacity = .ok q ∧
      ∀ s, Reaches Step (State.initial q) s → RefinesFifo capacity s := by
  obtain ⟨n, rfl⟩ := Int.eq_ofNat_of_zero_le hcapacity
  obtain ⟨q, hnew, -, -⟩ :
      ∃ q : BoundedQueue Element, newBoundedQueue (n : Int) = .ok q ∧
        q.maxCapacity = n ∧ Represents q 0 [] :=
    newBoundedQueue_represents n hcapacity
  exact ⟨q, hnew, fun s hs => (Invariant.of_reaches hnew hs).refinesFifo⟩

/-- One slot, one value through it. -/
theorem boundedQueue_refines_fifo_one :
    ∃ (q : BoundedQueue Nat) (s : State Nat), newBoundedQueue 1 = .ok q ∧
      Reaches Step (State.initial q) s ∧ s.dequeued = [(1, 7)] ∧
      RefinesFifo 1 s := by
  obtain ⟨q, hnew, h⟩ :
      ∃ q : BoundedQueue Nat, newBoundedQueue 1 = .ok q ∧
        ∀ s, Reaches Step (State.initial q) s → RefinesFifo 1 s :=
    boundedQueue_refines_fifo 1 (by decide)
  obtain rfl : (⟨[0], 0, 0, 0, 1⟩ : BoundedQueue Nat) = q :=
    Except.ok.inj hnew
  have hcall := Reaches.single
    (Step.begin (State.initial ⟨[(0 : Nat)], 0, 0, 0, 1⟩) (.enqueue 7))
  have hput := (hcall.tail (Step.lock _ 0 _ _ rfl (.inl rfl) rfl)).tail
    (Step.enqueue _ 0 7 ⟨[7], 0, 0, 1, 1⟩ rfl rfl rfl)
  have hget := ((hput.tail (Step.begin _ .dequeue)).tail
    (Step.lock _ 1 _ _ rfl (.inl rfl) rfl)).tail
    (Step.dequeue _ 1 7 ⟨[7], 0, 0, 0, 1⟩ rfl rfl rfl)
  exact ⟨_, _, hnew, hget, rfl, h _ hget⟩

end GoPrep.Ports.BlockingQueue
