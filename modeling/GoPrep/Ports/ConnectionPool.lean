import Mathlib.Data.List.Basic
import GoPrep.Verified.ThreadTable
import GoPrep.Verified.Transition

/-!
# The connection pool

A port of `poolImpl` in `src/go-concurrency-practice/final_connection_pool/
connection_pool.go`: a buffered channel of idle connections, filled by
`NewPool`, from which `Acquire` receives and to which `Release` and `Destroy`
send.  `Close` cancels the context of the pool and does nothing else.

A connection is nil or the number of the factory call that made it, among the
successful ones; so no two of them are the same.  `close_file_descriptor` is
the function the source assumes; what it was called with is kept.

The `select` of `Acquire` takes any of its ready cases.  Those of `Release`
and `Destroy` have a `default`, so they take the case of the context exactly
when it is cancelled, and the send after the `default` is a step of its own.

A `Release` or `Destroy` comes from the borrower of an `Acquire` result, which
then has given it back, or from anyone else with any connection.
-/

namespace GoPrep.Ports.ConnectionPool

open GoPrep.Verified.ThreadTable
open GoPrep.Verified.Transition

/-- `net.Conn`; `none` is nil. -/
abbrev Conn := Option Nat

/-! ## Calls -/

/-- Where an `Acquire` stands; `acquired` is its return with a nil error, and
`held` whether the connection has not been given back since. -/
inductive AcquirePc
  | selecting
  | acquired (conn : Conn) (held : Bool)
  | poolClosed
  | timeout
  deriving DecidableEq, Repr

/-- Where a `Release` stands: before the statement named. -/
inductive ReleasePc
  | selecting
  | sending
  | closing
  | returned
  deriving DecidableEq, Repr

/-- Where a `Destroy` stands: before the statement named. -/
inductive DestroyPc
  | closing
  | making
  | selecting (newConn : Conn)
  | sending (newConn : Conn)
  | closingNew (newConn : Conn)
  | returned
  deriving DecidableEq, Repr

inductive ClosePc
  | cancelling
  | returned
  deriving DecidableEq, Repr

/-- A call.  `afterClose` records whether the context of the pool was already
cancelled when the `Acquire` began. -/
inductive Call
  | acquire (afterClose : Bool) (ctxDone : Bool) (pc : AcquirePc)
  | release (conn : Conn) (pc : ReleasePc)
  | destroy (conn : Conn) (pc : DestroyPc)
  | close (pc : ClosePc)
  deriving DecidableEq, Repr

/-! ## The pool -/

/-- `poolImpl`, with the number of connections made and the connections whose
file descriptors were closed. -/
structure Pool where
  /-- The capacity of `idle_connections`. -/
  maxSize : Nat
  /-- `idle_connections`, oldest first. -/
  idle : List Conn
  cancelled : Bool
  made : Nat
  closed : List Conn
  deriving DecidableEq, Repr

structure State where
  pool : Pool
  calls : List Call
  deriving DecidableEq, Repr

namespace Pool

/-- A successful factory call. -/
def make (p : Pool) : Pool := { p with made := p.made + 1 }

def send (p : Pool) (conn : Conn) : Pool :=
  { p with idle := p.idle ++ [conn] }

def closeFileDescriptor (p : Pool) (conn : Conn) : Pool :=
  { p with closed := p.closed ++ [conn] }

def cancel (p : Pool) : Pool := { p with cancelled := true }

end Pool

/-- How `NewPool` fails: with an error, the second one with the pool that it
leaves behind, or with the panic of `make`. -/
inductive NewError
  | invalidParam
  | makeChanSize
  | creatingConnection (left : Pool)
  deriving DecidableEq, Repr

/-- The loop of `NewPool`; `succeeds` tells which factory calls do. -/
def spinUp (succeeds : Nat → Bool) : Nat → Pool → Except NewError Pool
  | 0, p => .ok p
  | n + 1, p =>
      if succeeds p.made then
        spinUp succeeds n (p.make.send (some p.made))
      else .error (.creatingConnection p)

/-- `NewPool`, where `make` accepts capacities up to `maxCap` for a channel of
connections and panics on greater ones. -/
def newPool (maxCap : Nat) (maxSize : Int) (succeeds : Nat → Bool) :
    Except NewError State :=
  if maxSize ≤ 0 then .error .invalidParam
  else if (maxCap : Int) < maxSize then .error .makeChanSize
  else
    match spinUp succeeds maxSize.toNat
        { maxSize := maxSize.toNat
          idle := []
          cancelled := false
          made := 0
          closed := [] } with
    | .error e => .error e
    | .ok p => .ok { pool := p, calls := [] }

/-- What the loop of `NewPool` leaves in the channel. -/
theorem eq_of_spinUp {succeeds : Nat → Bool} {n : Nat} {p q : Pool}
    (h : spinUp succeeds n p = .ok q) :
    q = { p with
      idle := p.idle ++ (List.range' p.made n).map some
      made := p.made + n } := by
  induction n generalizing p with
  | zero =>
      obtain rfl := Except.ok.inj h
      simp
  | succ n ih =>
      rw [spinUp] at h
      split at h
      next =>
        rw [ih h]
        simp [Pool.make, Pool.send, List.range'_succ, Nat.add_assoc,
          Nat.add_comm 1 n]
      next => cases h

/-- A new pool holds `max_size` connections, all of them idle. -/
def State.initial (maxSize : Nat) : State :=
  { pool :=
      { maxSize := maxSize
        idle := (List.range' 0 maxSize).map some
        cancelled := false
        made := maxSize
        closed := [] }
    calls := [] }

theorem eq_initial_of_newPool {maxCap : Nat} {maxSize : Int}
    {succeeds : Nat → Bool} {s : State}
    (h : newPool maxCap maxSize succeeds = .ok s) :
    0 < maxSize.toNat ∧ s = State.initial maxSize.toNat := by
  unfold newPool at h
  split at h
  · cases h
  next hpos =>
    split at h
    · cases h
    split at h
    · cases h
    next p hp =>
      obtain rfl := Except.ok.inj h
      rw [eq_of_spinUp hp]
      exact ⟨by omega, by simp [State.initial]⟩

/-! ## Steps -/

/-- What a call can do next. -/
inductive Moves (p : Pool) : Call → Call → Pool → Prop
  -- the three cases of `Acquire`
  | acquireClosed (afterClose ctxDone : Bool) : p.cancelled = true →
      Moves p (.acquire afterClose ctxDone .selecting)
        (.acquire afterClose ctxDone .poolClosed) p
  | acquireTimeout (afterClose : Bool) :
      Moves p (.acquire afterClose true .selecting)
        (.acquire afterClose true .timeout) p
  | acquireIdle (afterClose ctxDone : Bool) (conn : Conn)
      (rest : List Conn) : p.idle = conn :: rest →
      Moves p (.acquire afterClose ctxDone .selecting)
        (.acquire afterClose ctxDone (.acquired conn true))
        { p with idle := rest }
  -- `Release`
  | releaseDone (conn : Conn) : p.cancelled = true →
      Moves p (.release conn .selecting) (.release conn .closing) p
  | releaseDefault (conn : Conn) : p.cancelled = false →
      Moves p (.release conn .selecting) (.release conn .sending) p
  | releaseSends (conn : Conn) : p.idle.length < p.maxSize →
      Moves p (.release conn .sending) (.release conn .returned)
        (p.send conn)
  | releaseCloses (conn : Conn) :
      Moves p (.release conn .closing) (.release conn .returned)
        (p.closeFileDescriptor conn)
  -- `Destroy`, whose factory call may fail
  | destroyCloses (conn : Conn) :
      Moves p (.destroy conn .closing) (.destroy conn .making)
        (p.closeFileDescriptor conn)
  | destroyMakes (conn : Conn) :
      Moves p (.destroy conn .making) (.destroy conn (.selecting (some p.made)))
        p.make
  | destroyFails (conn : Conn) :
      Moves p (.destroy conn .making) (.destroy conn (.selecting none)) p
  | destroyDone (conn newConn : Conn) : p.cancelled = true →
      Moves p (.destroy conn (.selecting newConn))
        (.destroy conn (.closingNew newConn)) p
  | destroyDefault (conn newConn : Conn) : p.cancelled = false →
      Moves p (.destroy conn (.selecting newConn))
        (.destroy conn (.sending newConn)) p
  | destroySends (conn newConn : Conn) : p.idle.length < p.maxSize →
      Moves p (.destroy conn (.sending newConn)) (.destroy conn .returned)
        (p.send newConn)
  | destroyClosesNew (conn newConn : Conn) :
      Moves p (.destroy conn (.closingNew newConn)) (.destroy conn .returned)
        (p.closeFileDescriptor newConn)
  -- `Close`
  | closeCancels : Moves p (.close .cancelling) (.close .returned) p.cancel

/-- How a call that gives a connection back begins. -/
inductive Giving
  | release
  | destroy
  deriving DecidableEq, Repr

def Giving.call (giving : Giving) (conn : Conn) : Call :=
  match giving with
  | .release => .release conn .selecting
  | .destroy => .destroy conn .closing

inductive Action
  | acquire
  | ctxDone (c : Nat)
  /-- The borrower of call `c` gives its connection back. -/
  | giveBack (giving : Giving) (c : Nat)
  /-- Anyone releases or destroys any connection. -/
  | give (giving : Giving) (conn : Conn)
  | close
  | move (c : Nat)
  deriving DecidableEq, Repr

inductive Step : State → Action → State → Prop
  | acquire (s : State) :
      Step s .acquire
        { s with
          calls := s.calls ++ [.acquire s.pool.cancelled false .selecting] }
  | ctxDone (s : State) (c : Nat) (afterClose ctxDone : Bool)
      (pc : AcquirePc) :
      s.calls[c]? = some (.acquire afterClose ctxDone pc) →
      Step s (.ctxDone c)
        { s with calls := s.calls.set c (.acquire afterClose true pc) }
  | giveBack (s : State) (giving : Giving) (c : Nat)
      (afterClose ctxDone : Bool) (conn : Conn) :
      s.calls[c]? = some (.acquire afterClose ctxDone (.acquired conn true)) →
      Step s (.giveBack giving c)
        { s with
          calls := s.calls.set c
              (.acquire afterClose ctxDone (.acquired conn false)) ++
            [giving.call conn] }
  | give (s : State) (giving : Giving) (conn : Conn) :
      Step s (.give giving conn)
        { s with calls := s.calls ++ [giving.call conn] }
  | close (s : State) :
      Step s .close { s with calls := s.calls ++ [.close .cancelling] }
  | move (s : State) (c : Nat) (old new : Call) (pool : Pool) :
      s.calls[c]? = some old → Moves s.pool old new pool →
      Step s (.move c) { pool := pool, calls := s.calls.set c new }

/-- Connections are given back by their borrowers only, which can do so
once. -/
def Action.disciplined : Action → Prop
  | .give _ _ => False
  | _ => True

/-- A step of users who keep to the rules. -/
def DisciplinedStep (s : State) (a : Action) (t : State) : Prop :=
  Step s a t ∧ a.disciplined

end GoPrep.Ports.ConnectionPool
