import Mathlib.Data.List.Basic
import GoPrep.Verified.ThreadTable
import GoPrep.Verified.Transition

/-!
# The event bus

A port of `eventBusImpl` in `src/go-concurrency-practice/lld-event-bus.go`:
`Subscribe` gives each handler a channel and a goroutine that ranges over it,
`Close` closes every channel once and then races the wait group against its
context.

Every statement of `Subscribe` and `Close` is a step, also inside the critical
section of `mu`, which the call named by the field holds for writing.
`Publish` only reads under `mu`, in one step; the sends that the source leaves
to a real implementation are `deliver` steps of the environment, to open
channels with room.  A handler may take any time and does not panic.

`wg.Wait` returns at once when the counter is zero.  Otherwise it sleeps until
a `Done` brings the counter to zero; if the counter has moved again by the
time it runs, it panics.  A panic ends the process, as a second `close` of a
channel does.  Only the panic of `make` in `Subscribe` happens where the caller
may recover: its deferred unlock runs, and the rest of the bus goes on.
-/

namespace GoPrep.Ports.EventBus

open GoPrep.Verified.ThreadTable
open GoPrep.Verified.Transition

/-! ## The bus -/

/-- A subscriber's channel: its buffer, oldest first, and how often `close`
was called on it. -/
structure Channel (Payload : Type) where
  topic : String
  buffer : List Payload
  closes : Nat
  deriving DecidableEq, Repr

structure Config where
  bufferPerTopic : Int
  maxSubscribersPerTopic : Int
  deriving DecidableEq, Repr

def defaultBufferPerTopic : Int := 64

def defaultMaxSubscribersPerTopic : Int := 16

/-- The defaults that `NewEventBus` applies. -/
def Config.withDefaults (cfg : Config) : Config where
  bufferPerTopic :=
    if cfg.bufferPerTopic ≤ 0 then defaultBufferPerTopic
    else cfg.bufferPerTopic
  maxSubscribersPerTopic :=
    if cfg.maxSubscribersPerTopic ≤ 0 then defaultMaxSubscribersPerTopic
    else cfg.maxSubscribersPerTopic

/-- `sync.Once`, with the call that is inside. -/
inductive Once
  | fresh
  | running (c : Nat)
  | done
  deriving DecidableEq, Repr

def Once.runner : Once → Option Nat
  | .running c => some c
  | _ => none

/-- `eventBusImpl`.  The channels of all topics stand in one list, in the order
of their registration.  `maxChan` is not in the source: it is the largest buffer
that `make` accepts. -/
structure Bus (Payload : Type) where
  maxChan : Nat
  /-- The call that holds `mu` for writing. -/
  mu : Option Nat
  topics : List (Channel Payload)
  wg : Nat
  once : Once
  closed : Bool
  cfg : Config
  deriving DecidableEq, Repr

inductive BusError
  | closed
  | topicNotFound
  | subscriberLimitReached
  | ctx
  deriving DecidableEq, Repr

/-! ## Goroutines -/

/-- Where a `Subscribe` stands: before the statement named.  `adding` and
`starting` keep its local `ch`; `panicking` is before the deferred unlock. -/
inductive SubscribePc
  | locking
  | checkingClosed
  | checkingLimit
  | registering
  | adding (ch : Nat)
  | starting (ch : Nat)
  | unlocking (err : Option BusError)
  | returned (err : Option BusError)
  | panicking
  | panicked
  deriving DecidableEq, Repr

/-- Where a `Close` stands: before the statement named.  `locking` to
`leavingOnce` are inside `once.Do`; `closing` keeps the channels that its loop
has not come to. -/
inductive ClosePc
  | once
  | locking
  | settingClosed
  | closing (rest : List Nat)
  | unlocking
  | leavingOnce
  | startingWaiter
  | selecting (waiter : Nat)
  | returned (err : Option BusError)
  deriving DecidableEq, Repr

inductive Call
  | publish (topic : String)
  | published (err : Option BusError)
  | subscribe (topic : String) (pc : SubscribePc)
  | close (ctxDone : Bool) (pc : ClosePc)
  deriving DecidableEq, Repr

/-- Where the goroutine of a subscriber stands; `finishing` is its deferred
`wg.Done()`. -/
inductive HandlerPc (Payload : Type)
  | ranging
  | handling (payload : Payload)
  | finishing
  | exited
  deriving DecidableEq, Repr

structure Handler (Payload : Type) where
  ch : Nat
  pc : HandlerPc Payload
  deriving DecidableEq, Repr

/-- Where the goroutine stands that a `Close` starts; `asleep` and `released`
are inside `wg.Wait()`, and in `finished` its channel `done` is closed. -/
inductive WaiterPc
  | waiting
  | asleep
  | released
  | closingDone
  | finished
  deriving DecidableEq, Repr

/-- The counter of the wait group has come to zero. -/
def WaiterPc.release : WaiterPc → WaiterPc
  | .asleep => .released
  | pc => pc

structure State (Payload : Type) where
  bus : Bus Payload
  calls : List Call
  handlers : List (Handler Payload)
  waiters : List WaiterPc
  crashed : Bool
  deriving DecidableEq, Repr

variable {Payload : Type}

def newEventBus (maxChan : Nat) (cfg : Config) : State Payload :=
  { bus :=
      { maxChan := maxChan
        mu := none
        topics := []
        wg := 0
        once := .fresh
        closed := false
        cfg := cfg.withDefaults }
    calls := []
    handlers := []
    waiters := []
    crashed := false }

namespace Bus

/-- `len(b.topics[topic])`. -/
def subscribers (b : Bus Payload) (topic : String) : Nat :=
  b.topics.countP fun channel => channel.topic = topic

/-- What `Publish` returns. -/
def publish (b : Bus Payload) (topic : String) : Option BusError :=
  if b.closed then some .closed
  else if b.subscribers topic = 0 then some .topicNotFound
  else none

/-- `b.topics[topic] = append(b.topics[topic], ch)`. -/
def register (b : Bus Payload) (topic : String) : Bus Payload :=
  { b with
    topics := b.topics ++ [{ topic := topic, buffer := [], closes := 0 }] }

/-- `wg.Add(1)`. -/
def add (b : Bus Payload) : Bus Payload := { b with wg := b.wg + 1 }

/-- `wg.Done()`. -/
def finish (b : Bus Payload) : Bus Payload := { b with wg := b.wg - 1 }

/-- `close(ch)`. -/
def closeChannel (b : Bus Payload) (ch : Nat) (channel : Channel Payload) :
    Bus Payload :=
  { b with
    topics := b.topics.set ch { channel with closes := channel.closes + 1 } }

def setBuffer (b : Bus Payload) (ch : Nat) (channel : Channel Payload)
    (buffer : List Payload) : Bus Payload :=
  { b with topics := b.topics.set ch { channel with buffer := buffer } }

end Bus

/-! ## Moves -/

/-- What a call does besides changing the bus. -/
inductive Effect
  | nothing
  | startsHandler (ch : Nat)
  | startsWaiter
  | panics
  deriving DecidableEq, Repr

/-- Call `c` moves from the first `Call` to the second; `waiters` are the
goroutines that the `Close` calls have started so far. -/
inductive Moves (b : Bus Payload) (waiters : List WaiterPc) (c : Nat) :
    Call → Call → Bus Payload → Effect → Prop
  | publishes (topic : String) : b.mu = none →
      Moves b waiters c (.publish topic) (.published (b.publish topic)) b
        .nothing
  -- `Subscribe`
  | subscribeLocks (topic : String) : b.mu = none →
      Moves b waiters c (.subscribe topic .locking)
        (.subscribe topic .checkingClosed) { b with mu := some c } .nothing
  | findsClosed (topic : String) : b.closed = true →
      Moves b waiters c (.subscribe topic .checkingClosed)
        (.subscribe topic (.unlocking (some .closed))) b .nothing
  | findsOpen (topic : String) : b.closed = false →
      Moves b waiters c (.subscribe topic .checkingClosed)
        (.subscribe topic .checkingLimit) b .nothing
  | limitReached (topic : String) :
      b.cfg.maxSubscribersPerTopic ≤ b.subscribers topic →
      Moves b waiters c (.subscribe topic .checkingLimit)
        (.subscribe topic (.unlocking (some .subscriberLimitReached))) b
        .nothing
  | belowLimit (topic : String) :
      b.subscribers topic < b.cfg.maxSubscribersPerTopic →
      Moves b waiters c (.subscribe topic .checkingLimit)
        (.subscribe topic .registering) b .nothing
  | registers (topic : String) : b.cfg.bufferPerTopic ≤ b.maxChan →
      Moves b waiters c (.subscribe topic .registering)
        (.subscribe topic (.adding b.topics.length)) (b.register topic)
        .nothing
  | makePanics (topic : String) : b.maxChan < b.cfg.bufferPerTopic →
      Moves b waiters c (.subscribe topic .registering)
        (.subscribe topic .panicking) b .nothing
  | adds (topic : String) (ch : Nat) :
      Moves b waiters c (.subscribe topic (.adding ch))
        (.subscribe topic (.starting ch)) b.add .nothing
  | starts (topic : String) (ch : Nat) :
      Moves b waiters c (.subscribe topic (.starting ch))
        (.subscribe topic (.unlocking none)) b (.startsHandler ch)
  | subscribeUnlocks (topic : String) (err : Option BusError) :
      Moves b waiters c (.subscribe topic (.unlocking err))
        (.subscribe topic (.returned err)) { b with mu := none } .nothing
  | panicUnlocks (topic : String) :
      Moves b waiters c (.subscribe topic .panicking)
        (.subscribe topic .panicked) { b with mu := none } .nothing
  -- `Close`; while a call is inside `once.Do` the others wait for it
  | entersOnce (ctxDone : Bool) : b.once = .fresh →
      Moves b waiters c (.close ctxDone .once) (.close ctxDone .locking)
        { b with once := .running c } .nothing
  | skipsOnce (ctxDone : Bool) : b.once = .done →
      Moves b waiters c (.close ctxDone .once)
        (.close ctxDone .startingWaiter) b .nothing
  | closeLocks (ctxDone : Bool) : b.mu = none →
      Moves b waiters c (.close ctxDone .locking)
        (.close ctxDone .settingClosed) { b with mu := some c } .nothing
  | setsClosed (ctxDone : Bool) :
      Moves b waiters c (.close ctxDone .settingClosed)
        (.close ctxDone (.closing (List.range b.topics.length)))
        { b with closed := true } .nothing
  -- a map iterates in any order
  | closesChannel (ctxDone : Bool) (rest : List Nat) (ch : Nat)
      (channel : Channel Payload) :
      ch ∈ rest → b.topics[ch]? = some channel → channel.closes = 0 →
      Moves b waiters c (.close ctxDone (.closing rest))
        (.close ctxDone (.closing (rest.erase ch)))
        (b.closeChannel ch channel) .nothing
  | closesClosed (ctxDone : Bool) (rest : List Nat) (ch : Nat)
      (channel : Channel Payload) :
      ch ∈ rest → b.topics[ch]? = some channel → channel.closes ≠ 0 →
      Moves b waiters c (.close ctxDone (.closing rest))
        (.close ctxDone (.closing (rest.erase ch)))
        (b.closeChannel ch channel) .panics
  | closedAll (ctxDone : Bool) :
      Moves b waiters c (.close ctxDone (.closing []))
        (.close ctxDone .unlocking) b .nothing
  | closeUnlocks (ctxDone : Bool) :
      Moves b waiters c (.close ctxDone .unlocking)
        (.close ctxDone .leavingOnce) { b with mu := none } .nothing
  | leavesOnce (ctxDone : Bool) :
      Moves b waiters c (.close ctxDone .leavingOnce)
        (.close ctxDone .startingWaiter) { b with once := .done } .nothing
  | startsWaiter (ctxDone : Bool) :
      Moves b waiters c (.close ctxDone .startingWaiter)
        (.close ctxDone (.selecting waiters.length)) b .startsWaiter
  | closeReturns (ctxDone : Bool) (waiter : Nat) :
      waiters[waiter]? = some .finished →
      Moves b waiters c (.close ctxDone (.selecting waiter))
        (.close ctxDone (.returned none)) b .nothing
  | closeTimesOut (waiter : Nat) :
      Moves b waiters c (.close true (.selecting waiter))
        (.close true (.returned (some .ctx))) b .nothing

/-! ## Runs -/

/-- What `effect` adds to the goroutines. -/
def State.after (s : State Payload) : Effect → State Payload
  | .nothing => s
  | .startsHandler ch =>
      { s with handlers := s.handlers ++ [{ ch := ch, pc := .ranging }] }
  | .startsWaiter => { s with waiters := s.waiters ++ [.waiting] }
  | .panics => { s with crashed := true }

/-- The goroutine of handler `h` moves to `pc`. -/
def State.handlerGoto (s : State Payload) (h : Nat)
    (handler : Handler Payload) (pc : HandlerPc Payload) : State Payload :=
  { s with handlers := s.handlers.set h { handler with pc := pc } }

inductive Action (Payload : Type)
  | publish (topic : String)
  | subscribe (topic : String)
  | close
  | ctxDone (c : Nat)
  | move (c : Nat)
  | deliver (ch : Nat) (payload : Payload)
  | handler (h : Nat)
  | waiter (w : Nat)
  deriving DecidableEq, Repr

inductive Rule : State Payload → Action Payload → State Payload → Prop
  | publish (s : State Payload) (topic : String) :
      Rule s (.publish topic) { s with calls := s.calls ++ [.publish topic] }
  | subscribe (s : State Payload) (topic : String) :
      Rule s (.subscribe topic)
        { s with calls := s.calls ++ [.subscribe topic .locking] }
  | close (s : State Payload) :
      Rule s .close { s with calls := s.calls ++ [.close false .once] }
  | ctxDone (s : State Payload) (c : Nat) (ctxDone : Bool) (pc : ClosePc) :
      s.calls[c]? = some (.close ctxDone pc) →
      Rule s (.ctxDone c) { s with calls := s.calls.set c (.close true pc) }
  | move (s : State Payload) (c : Nat) (old new : Call) (bus : Bus Payload)
      (effect : Effect) :
      s.calls[c]? = some old → Moves s.bus s.waiters c old new bus effect →
      Rule s (.move c)
        ({ s with bus := bus, calls := s.calls.set c new }.after effect)
  | deliver (s : State Payload) (ch : Nat) (payload : Payload)
      (channel : Channel Payload) :
      s.bus.topics[ch]? = some channel → channel.closes = 0 →
      channel.buffer.length < s.bus.cfg.bufferPerTopic →
      Rule s (.deliver ch payload)
        { s with
          bus := s.bus.setBuffer ch channel (channel.buffer ++ [payload]) }
  -- the goroutine of a subscriber
  | receives (s : State Payload) (h : Nat) (handler : Handler Payload)
      (channel : Channel Payload) (payload : Payload) (rest : List Payload) :
      s.handlers[h]? = some handler → handler.pc = .ranging →
      s.bus.topics[handler.ch]? = some channel →
      channel.buffer = payload :: rest →
      Rule s (.handler h)
        { s.handlerGoto h handler (.handling payload) with
          bus := s.bus.setBuffer handler.ch channel rest }
  | handles (s : State Payload) (h : Nat) (handler : Handler Payload)
      (payload : Payload) :
      s.handlers[h]? = some handler → handler.pc = .handling payload →
      Rule s (.handler h) (s.handlerGoto h handler .ranging)
  | rangeEnds (s : State Payload) (h : Nat) (handler : Handler Payload)
      (channel : Channel Payload) :
      s.handlers[h]? = some handler → handler.pc = .ranging →
      s.bus.topics[handler.ch]? = some channel → channel.buffer = [] →
      channel.closes ≠ 0 →
      Rule s (.handler h) (s.handlerGoto h handler .finishing)
  | finishes (s : State Payload) (h : Nat) (handler : Handler Payload) :
      s.handlers[h]? = some handler → handler.pc = .finishing →
      Rule s (.handler h)
        { s.handlerGoto h handler .exited with
          bus := s.bus.finish
          waiters :=
            if s.bus.finish.wg = 0 then s.waiters.map WaiterPc.release
            else s.waiters }
  -- the goroutine of a `Close`
  | waitReturns (s : State Payload) (w : Nat) (pc : WaiterPc) :
      s.waiters[w]? = some pc → pc = .waiting ∨ pc = .released →
      s.bus.wg = 0 →
      Rule s (.waiter w) { s with waiters := s.waiters.set w .closingDone }
  | waitSleeps (s : State Payload) (w : Nat) :
      s.waiters[w]? = some .waiting → s.bus.wg ≠ 0 →
      Rule s (.waiter w) { s with waiters := s.waiters.set w .asleep }
  | waitPanics (s : State Payload) (w : Nat) :
      s.waiters[w]? = some .released → s.bus.wg ≠ 0 →
      Rule s (.waiter w) { s with crashed := true }
  | closesDone (s : State Payload) (w : Nat) :
      s.waiters[w]? = some .closingDone →
      Rule s (.waiter w) { s with waiters := s.waiters.set w .finished }

/-- The steps of a process that has not crashed. -/
def Step (s : State Payload) (a : Action Payload) (t : State Payload) : Prop :=
  s.crashed = false ∧ Rule s a t

end GoPrep.Ports.EventBus
