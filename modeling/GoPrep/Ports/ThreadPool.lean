import Mathlib.Data.List.Basic
import GoPrep.Verified.ThreadTable
import GoPrep.Verified.Transition

/-!
# The thread pool on a bounded queue

A port of `threadPoolImplementation` in
`src/thread_pool_on_fixed_size_bounded_queue.cpp`: worker threads that take
tasks from a bounded queue and fulfil the promise queued with each, callers of
`pushTask` that block while the queue is full, and the two shutdown calls.

`Pool` is what `poolMutex` guards, with the history of accepted, dequeued,
dropped and resolved tasks.  What a thread does while it holds the mutex is
written as executable choices (`workerChoice`, `pushChoice`, `close`) in the
order of the source; `Moves` says what a thread at each program point does,
and `Step` lets any thread move, the mutex being taken only when it is free.
`notify_one` wakes an arbitrary sleeper and any sleeper may wake spuriously.

Allocation is taken to succeed.  A promise is named by the `pushTask` call
that made it.
-/

namespace GoPrep.Ports.ThreadPool

open GoPrep.Verified.ThreadTable
open GoPrep.Verified.Transition

structure Task where
  id : Int
  taskName : String
  deriving DecidableEq, Repr

structure Result where
  id : Int
  resultField : String
  deriving DecidableEq, Repr

/-- What a worker computes from a task. -/
def process (task : Task) : Result :=
  { id := task.id, resultField := "Processed: " ++ task.taskName }

/-- An element of `taskQueue`: the call whose promise it carries, and the
task. -/
abbrev Entry := Nat × Task

inductive ShutdownKind
  | graceful
  | immediate
  deriving DecidableEq, Repr

/-! ## What the mutex guards -/

structure Pool where
  maxQueueSize : Nat
  taskQueue : List Entry
  isImmediateShutdown : Bool
  isGracefulShutdown : Bool
  accepted : List Entry
  dequeued : List Entry
  dropped : List Entry
  /-- The promises fulfilled so far, with the values they got. -/
  resolved : List (Entry × Result)
  deriving DecidableEq, Repr

namespace Pool

def initial (queueCapacity : Nat) : Pool :=
  { maxQueueSize := queueCapacity
    taskQueue := []
    isImmediateShutdown := false
    isGracefulShutdown := false
    accepted := []
    dequeued := []
    dropped := []
    resolved := [] }

def isShutdown (p : Pool) : Bool :=
  p.isGracefulShutdown || p.isImmediateShutdown

/-- The predicate of `cvNotEmpty.wait`. -/
def mayGrab (p : Pool) : Bool :=
  !p.taskQueue.isEmpty || p.isImmediateShutdown || p.isGracefulShutdown

/-- The predicate of `cvNotFull.wait`. -/
def mayPush (p : Pool) : Bool :=
  decide (p.taskQueue.length < p.maxQueueSize) || p.isGracefulShutdown ||
    p.isImmediateShutdown

/-- The outcomes of the locked part of `workerLoop`. -/
inductive WorkerChoice
  | wait
  | leave
  | grab (grabbedTask : Entry) (rest : List Entry)
  /-- `front()` of an empty queue. -/
  | undefined

def workerChoice (p : Pool) : WorkerChoice :=
  if !p.mayGrab then .wait
  else if p.isImmediateShutdown then .leave
  else if p.isGracefulShutdown && p.taskQueue.isEmpty then .leave
  else match p.taskQueue with
    | [] => .undefined
    | grabbedTask :: rest => .grab grabbedTask rest

/-- The outcomes of the locked part of `pushTask`. -/
inductive PushChoice
  | wait
  | throw (what : String)
  | push

/-- `waited` tells whether the call has slept, past its first check. -/
def pushChoice (p : Pool) (waited : Bool) : PushChoice :=
  if !waited && p.isShutdown then
    .throw "Submission failed: Thread pool is shutting down."
  else if !p.mayPush then .wait
  else if p.isShutdown then
    .throw "Submission failed: Thread pool closed during wait."
  else .push

def grab (p : Pool) (grabbedTask : Entry) (rest : List Entry) : Pool :=
  { p with
    taskQueue := rest
    dequeued := p.dequeued ++ [grabbedTask] }

def push (p : Pool) (c : Nat) (task : Task) : Pool :=
  { p with
    taskQueue := p.taskQueue ++ [(c, task)]
    accepted := p.accepted ++ [(c, task)] }

/-- `set_value`; `none` when the promise has a value already. -/
def setValue (p : Pool) (entry : Entry) (value : Result) : Option Pool :=
  if entry.1 ∈ p.resolved.map (fun done => done.1.1) then none
  else some { p with resolved := p.resolved ++ [(entry, value)] }

/-- The locked part of a shutdown call that finds neither flag set.
`immediateShutdown` pops every task, breaking its promise. -/
def close (p : Pool) : ShutdownKind → Pool
  | .graceful => { p with isGracefulShutdown := true }
  | .immediate =>
      { p with
        isImmediateShutdown := true
        taskQueue := []
        dropped := p.dropped ++ p.taskQueue }

end Pool

/-! ## Threads -/

/-- Where a worker stands in `workerLoop`. -/
inductive WorkerPc
  | lock
  | locked
  | asleep
  | notified
  /-- Past the locked part, with a task. -/
  | holding (grabbedTask : Entry)
  | exited
  /-- Undefined behaviour, or `set_exception` throwing out of the thread. -/
  | faulted
  deriving DecidableEq, Repr

/-- Where a `pushTask` call stands. -/
inductive PushPc
  | lock
  | locked
  | asleep
  | notified
  /-- Holding the mutex again after a sleep. -/
  | relocked
  | returned
  | threw (what : String)
  deriving DecidableEq, Repr

/-- Where a shutdown call stands; it sets its flag or returns early on
leaving `locked`. -/
inductive ShutdownPc
  | lock
  | locked
  | notifyNotFull
  | notifyNotEmpty
  /-- About to join worker `i`. -/
  | joining (i : Nat)
  | returned (setFlag : Bool)
  deriving DecidableEq, Repr

inductive Thread
  | worker (pc : WorkerPc)
  | push (task : Task) (pc : PushPc)
  | shutdown (kind : ShutdownKind) (pc : ShutdownPc)
  deriving DecidableEq, Repr

namespace Thread

/-- The threads inside a critical section of `poolMutex`. -/
def holdsMutex : Thread → Bool
  | .worker .locked => true
  | .push _ .locked => true
  | .push _ .relocked => true
  | .shutdown _ .locked => true
  | _ => false

/-- Asleep in `cvNotEmpty.wait`. -/
def asleepNotEmpty : Thread → Bool
  | .worker .asleep => true
  | _ => false

/-- Asleep in `cvNotFull.wait`. -/
def asleepNotFull : Thread → Bool
  | .push _ .asleep => true
  | _ => false

/-- A sleeper of `cvNotEmpty` wakes. -/
def wakeNotEmpty : Thread → Thread
  | .worker .asleep => .worker .notified
  | t => t

/-- A sleeper of `cvNotFull` wakes. -/
def wakeNotFull : Thread → Thread
  | .push task .asleep => .push task .notified
  | t => t

end Thread

/-! ## Steps -/

/-- The workers come first in `threads`; `joinable` is their `joinable()`. -/
structure State where
  pool : Pool
  poolMutex : Option Nat
  numThreads : Nat
  joinable : List Bool
  threads : List Thread
  deriving DecidableEq, Repr

/-- The constructor. -/
def State.initial (numThreads queueCapacity : Nat) : State :=
  { pool := .initial queueCapacity
    poolMutex := none
    numThreads := numThreads
    joinable := List.replicate numThreads true
    threads := List.replicate numThreads (.worker .lock) }

/-- The notification a thread sends as it moves. -/
inductive Notification
  | nobody
  | oneNotEmpty
  | oneNotFull
  | allNotEmpty
  | allNotFull

/-- The table after a notification. -/
inductive Notified : Notification → List Thread → List Thread → Prop
  | nobody (ts : List Thread) : Notified .nobody ts ts
  | oneNotEmpty (ts ts' : List Thread) :
      NotifyOne Thread.asleepNotEmpty Thread.wakeNotEmpty ts ts' →
      Notified .oneNotEmpty ts ts'
  | oneNotFull (ts ts' : List Thread) :
      NotifyOne Thread.asleepNotFull Thread.wakeNotFull ts ts' →
      Notified .oneNotFull ts ts'
  | allNotEmpty (ts : List Thread) :
      Notified .allNotEmpty ts (ts.map Thread.wakeNotEmpty)
  | allNotFull (ts : List Thread) :
      Notified .allNotFull ts (ts.map Thread.wakeNotFull)

/-- What a move of one thread does besides moving it. -/
structure Effect where
  pool : Pool
  joinable : List Bool
  notification : Notification

/-- The effect of a move on the thread's own program counter only. -/
def State.local (s : State) : Effect :=
  { pool := s.pool, joinable := s.joinable, notification := .nobody }

/-- Thread `c`, standing as in the first `Thread`, moves to the second. -/
inductive Moves (s : State) (c : Nat) : Thread → Thread → Effect → Prop
  -- `workerLoop`
  | workerLocks : Moves s c (.worker .lock) (.worker .locked) s.local
  | workerRelocks : Moves s c (.worker .notified) (.worker .locked) s.local
  | workerWaits : s.pool.workerChoice = .wait →
      Moves s c (.worker .locked) (.worker .asleep) s.local
  | workerLeaves : s.pool.workerChoice = .leave →
      Moves s c (.worker .locked) (.worker .exited) s.local
  | workerGrabs (grabbedTask : Entry) (rest : List Entry) :
      s.pool.workerChoice = .grab grabbedTask rest →
      Moves s c (.worker .locked) (.worker (.holding grabbedTask))
        { s.local with
          pool := s.pool.grab grabbedTask rest
          notification := .oneNotFull }
  | workerFaults : s.pool.workerChoice = .undefined →
      Moves s c (.worker .locked) (.worker .faulted) s.local
  | workerResolves (grabbedTask : Entry) (pool : Pool) :
      s.pool.setValue grabbedTask (process grabbedTask.2) = some pool →
      Moves s c (.worker (.holding grabbedTask)) (.worker .lock)
        { s.local with pool := pool }
  -- the `set_exception` of the handler throws as well
  | workerTerminates (grabbedTask : Entry) :
      s.pool.setValue grabbedTask (process grabbedTask.2) = none →
      Moves s c (.worker (.holding grabbedTask)) (.worker .faulted) s.local
  -- `pushTask`
  | pushLocks (task : Task) :
      Moves s c (.push task .lock) (.push task .locked) s.local
  | pushRelocks (task : Task) :
      Moves s c (.push task .notified) (.push task .relocked) s.local
  | pushWaits (task : Task) (pc : PushPc) (waited : Bool) :
      pc = (if waited then .relocked else .locked) →
      s.pool.pushChoice waited = .wait →
      Moves s c (.push task pc) (.push task .asleep) s.local
  | pushThrows (task : Task) (pc : PushPc) (waited : Bool) (what : String) :
      pc = (if waited then .relocked else .locked) →
      s.pool.pushChoice waited = .throw what →
      Moves s c (.push task pc) (.push task (.threw what)) s.local
  | pushes (task : Task) (pc : PushPc) (waited : Bool) :
      pc = (if waited then .relocked else .locked) →
      s.pool.pushChoice waited = .push →
      Moves s c (.push task pc) (.push task .returned)
        { s.local with
          pool := s.pool.push c task
          notification := .oneNotEmpty }
  -- `gracefulShutdown` and `immediateShutdown`
  | shutdownLocks (kind : ShutdownKind) :
      Moves s c (.shutdown kind .lock) (.shutdown kind .locked) s.local
  | shutdownReturns (kind : ShutdownKind) : s.pool.isShutdown = true →
      Moves s c (.shutdown kind .locked) (.shutdown kind (.returned false))
        s.local
  | shutdownCloses (kind : ShutdownKind) : s.pool.isShutdown = false →
      Moves s c (.shutdown kind .locked) (.shutdown kind .notifyNotFull)
        { s.local with pool := s.pool.close kind }
  | notifiesNotFull (kind : ShutdownKind) :
      Moves s c (.shutdown kind .notifyNotFull)
        (.shutdown kind .notifyNotEmpty)
        { s.local with notification := .allNotFull }
  | notifiesNotEmpty (kind : ShutdownKind) :
      Moves s c (.shutdown kind .notifyNotEmpty)
        (.shutdown kind (.joining 0))
        { s.local with notification := .allNotEmpty }
  | joins (kind : ShutdownKind) (i : Nat) : i < s.numThreads →
      s.joinable[i]? = some true →
      s.threads[i]? = some (.worker .exited) →
      Moves s c (.shutdown kind (.joining i))
        (.shutdown kind (.joining (i + 1)))
        { s.local with joinable := s.joinable.set i false }
  | skipsJoin (kind : ShutdownKind) (i : Nat) : i < s.numThreads →
      s.joinable[i]? = some false →
      Moves s c (.shutdown kind (.joining i))
        (.shutdown kind (.joining (i + 1))) s.local
  | shutdownJoined (kind : ShutdownKind) (i : Nat) : ¬ i < s.numThreads →
      Moves s c (.shutdown kind (.joining i))
        (.shutdown kind (.returned true)) s.local

/-- The owner of the mutex after thread `c` has moved; `none` when `c` must
wait for it. -/
def acquire (owner : Option Nat) (c : Nat) (old new : Thread) :
    Option (Option Nat) :=
  match old.holdsMutex, new.holdsMutex with
  | false, true => if owner = none then some (some c) else none
  | true, false => some none
  | _, _ => some owner

inductive Action
  | pushTask (task : Task)
  | shutdown (kind : ShutdownKind)
  | wakeSpuriously (c : Nat)
  | move (c : Nat)
  deriving DecidableEq, Repr

inductive Step : State → Action → State → Prop
  | pushTask (s : State) (task : Task) :
      Step s (.pushTask task)
        { s with threads := s.threads ++ [.push task .lock] }
  | shutdown (s : State) (kind : ShutdownKind) :
      Step s (.shutdown kind)
        { s with threads := s.threads ++ [.shutdown kind .lock] }
  | wakeSpuriously (s : State) (c : Nat) (t : Thread) :
      s.threads[c]? = some t →
      Step s (.wakeSpuriously c)
        { s with
          threads := s.threads.set c t.wakeNotEmpty.wakeNotFull }
  | move (s : State) (c : Nat) (old new : Thread) (effect : Effect)
      (owner : Option Nat) (threads : List Thread) :
      s.threads[c]? = some old → Moves s c old new effect →
      acquire s.poolMutex c old new = some owner →
      Notified effect.notification (s.threads.set c new) threads →
      Step s (.move c)
        { s with
          pool := effect.pool
          poolMutex := owner
          joinable := effect.joinable
          threads := threads }

end GoPrep.Ports.ThreadPool
