import Mathlib.Algebra.Ring.Int.Defs
import GoPrep.Verified.OnceGate

/-!
# The connection pool with functional options

A port of `src/go-concurrency-practice/lld-connection-pool.go`.  `NewPool`
applies its options from left to right to a pool with the defaults and then
validates it.  The bodies of `Acquire`, `Release` and `Destroy` stop after
their closed check and that of `Close` after it has set the flag: what the
source leaves to a real implementation is not there.

A method reads `closed` under `mu`, gives `mu` up and answers; `Close` is a
`sync.Once` around the same `mu`.  `net.Conn` and the factory are parameters.

## Main results

* `foldl_last` — of the options of one kind the last one counts.
* `newPool_eq` — what `NewPool` returns, by the last option of each kind.
* `pool_closes_once` — the answers of concurrent calls: `ErrClosed` from every
  method that begins after a `Close` has returned, and none without a `Close`.
-/

namespace GoPrep.Ports.LldConnectionPool

open GoPrep.Verified.OnceGate
open GoPrep.Verified.RealTime
open GoPrep.Verified.Transition

variable {Conn Factory : Type}

inductive PoolError
  | errClosed
  | errPoolExhausted
  | errNoFactory
  | errInvalidSize
  deriving DecidableEq, Repr

/-! ## `NewPool` -/

/-- What the constructor sets of `poolImpl`; the capacity of `conns` is zero
until it is made. -/
structure PoolImpl (Factory : Type) where
  connsCap : Nat
  maxSize : Int
  /-- In nanoseconds. -/
  idleTimeout : Int
  /-- `none` is nil. -/
  factory : Option Factory
  deriving DecidableEq, Repr

/-- The three constructors of an `Option`. -/
inductive PoolOption (Factory : Type)
  | withMaxSize (n : Int)
  | withIdleTimeout (d : Int)
  | withFactory (f : Option Factory)
  deriving DecidableEq, Repr

namespace PoolOption

/-- The closure. -/
def apply (p : PoolImpl Factory) : PoolOption Factory → PoolImpl Factory
  | .withMaxSize n => { p with maxSize := n }
  | .withIdleTimeout d => { p with idleTimeout := d }
  | .withFactory f => { p with factory := f }

def maxSize? : PoolOption Factory → Option Int
  | .withMaxSize n => some n
  | _ => none

def idleTimeout? : PoolOption Factory → Option Int
  | .withIdleTimeout d => some d
  | _ => none

def factory? : PoolOption Factory → Option (Option Factory)
  | .withFactory f => some f
  | _ => none

end PoolOption

def defaultMaxSize : Int := 10

/-- `NewPool`.  Making the channel is taken to succeed for every size that is
positive. -/
def newPool (opts : List (PoolOption Factory)) :
    Except PoolError (PoolImpl Factory) :=
  let p := opts.foldl PoolOption.apply
    { connsCap := 0, maxSize := defaultMaxSize, idleTimeout := 0,
      factory := none }
  if p.factory.isNone then .error .errNoFactory
  else if p.maxSize ≤ 0 then .error .errInvalidSize
  else .ok { p with connsCap := p.maxSize.toNat }

/-- The value of the last option that has one. -/
def lastOr {β : Type} (value? : PoolOption Factory → Option β) (default : β)
    (opts : List (PoolOption Factory)) : β :=
  (opts.filterMap value?).getLast?.getD default

/-- **The last option of a kind counts**, for a field that the options of this
kind set and the others leave alone. -/
theorem foldl_last {β : Type} (field : PoolImpl Factory → β)
    (value? : PoolOption Factory → Option β)
    (hfield : ∀ p opt, field (PoolOption.apply p opt) =
      (value? opt).getD (field p))
    (opts : List (PoolOption Factory)) (p : PoolImpl Factory) :
    field (opts.foldl PoolOption.apply p) =
      lastOr value? (field p) opts := by
  induction opts using List.reverseRecOn with
  | nil => rfl
  | append_singleton opts opt ih =>
      rw [List.foldl_append, List.foldl_cons, List.foldl_nil, hfield, ih,
        lastOr, lastOr, List.filterMap_append]
      cases hvalue : value? opt with
      | none => simp [hvalue]
      | some v => simp [hvalue]

/-- **What `NewPool` returns**: the factory is checked before the size, and
each field has the value of its last option or its default. -/
theorem newPool_eq (opts : List (PoolOption Factory)) :
    newPool opts =
      match lastOr PoolOption.factory? none opts with
      | none => .error .errNoFactory
      | some f =>
          if lastOr PoolOption.maxSize? defaultMaxSize opts ≤ 0 then
            .error .errInvalidSize
          else .ok
            { connsCap := (lastOr PoolOption.maxSize? defaultMaxSize opts).toNat
              maxSize := lastOr PoolOption.maxSize? defaultMaxSize opts
              idleTimeout := lastOr PoolOption.idleTimeout? 0 opts
              factory := some f } := by
  have hfactory := foldl_last PoolImpl.factory PoolOption.factory?
    (fun p opt => by cases opt <;> rfl) opts
    ⟨0, defaultMaxSize, 0, none⟩
  have hmax := foldl_last PoolImpl.maxSize PoolOption.maxSize?
    (fun p opt => by cases opt <;> rfl) opts
    ⟨0, defaultMaxSize, 0, none⟩
  have hidle := foldl_last PoolImpl.idleTimeout PoolOption.idleTimeout?
    (fun p opt => by cases opt <;> rfl) opts
    ⟨0, defaultMaxSize, 0, none⟩
  dsimp only at hfactory hmax hidle
  simp only [newPool, hfactory, hmax, hidle]
  cases lastOr PoolOption.factory? none opts with
  | none => rfl
  | some f => rfl

/-! ## The methods -/

inductive Method (Conn : Type)
  | acquire
  | release (conn : Conn)
  | destroy (conn : Conn)
  deriving DecidableEq, Repr

/-- What a call returns; `conn` is nil for `none`, and so is an error. -/
inductive Answer (Conn : Type)
  | acquired (conn : Option Conn) (err : Option PoolError)
  | finished (err : Option PoolError)
  deriving DecidableEq, Repr

/-- `Acquire` after it has read the flag. -/
def acquire (closed : Bool) : Answer Conn :=
  if closed then .acquired none (some .errClosed) else .acquired none none

/-- `Release` after it has read the flag. -/
def release (_conn : Conn) (closed : Bool) : Answer Conn :=
  if closed then .finished (some .errClosed) else .finished none

/-- `Destroy` after it has read the flag. -/
def destroy (_conn : Conn) (closed : Bool) : Answer Conn :=
  if closed then .finished (some .errClosed) else .finished none

/-- What a method answers that has read `closed`. -/
def methodAnswer (closed : Bool) : Method Conn → Answer Conn
  | .acquire => acquire closed
  | .release conn => release conn closed
  | .destroy conn => destroy conn closed

def Answer.err : Answer Conn → Option PoolError
  | .acquired _ err => err
  | .finished err => err

/-- The calls on one pool; the data of the gate counts the runs of the body of
the once, which does no more than set the flag. -/
abbrev State (Conn : Type) :=
  GoPrep.Verified.OnceGate.State (Method Conn) Nat

abbrev Step : State Conn → Action (Method Conn) → State Conn → Prop :=
  GoPrep.Verified.OnceGate.Step Nat.succ

/-- What a call that has returned answered; `Close` answers nil. -/
def answer : Call (Method Conn) → Option (Answer Conn)
  | .visit m (.returned closed) => some (methodAnswer closed m)
  | .close .returned => some (.finished none)
  | _ => none

theorem err_methodAnswer (m : Method Conn) (closed : Bool) :
    (methodAnswer closed m).err = if closed then some .errClosed else none := by
  cases m <;> cases closed <;> rfl

/-- A gate whose `close` has returned is shut. -/
theorem closed_of_returned {s : State Conn} (hgated : Gated Nat.succ 0 s)
    {a : Nat} (ha : s.calls[a]? = some (.close .returned)) :
    s.gate.closed = true := by
  rw [(Takes.shut hgated.legal).1]
  have hclose : (a, Effect.closed) ∈ s.order :=
    (hgated.linearizes.effects.mem_iff_result ha).mpr rfl
  exact List.mem_map_of_mem hclose

/-- **The pool closes once and for all.**  In every state reachable by any
interleaving of `Acquire`, `Release`, `Destroy` and `Close` calls: the calls
are those of a gate that the first `Close` shuts, in an order that respects
real time; the body of the once has run once if the flag is set, as it is when
some `Close` has returned, and not at all otherwise; a method that begins
after some `Close` has returned answers `ErrClosed`, and one that answers
`ErrClosed` comes after some `Close` in this order; and all calls return, in
every schedule. -/
theorem pool_closes_once {s : State Conn}
    (hs : Reaches Step (.initial 0) s) :
    Gated Nat.succ 0 s ∧
    s.gate.data = (if s.gate.closed then 1 else 0) ∧
    (∀ a : Nat, s.calls[a]? = some (.close .returned) → s.gate.data = 1) ∧
    (∀ (a b : Nat) (m : Method Conn) (closed : Bool),
      Before s.history (.respond a) (.invoke b) →
      s.calls[a]? = some (.close .returned) →
      s.calls[b]? = some (.visit m (.returned closed)) →
      (methodAnswer closed m).err = some .errClosed) ∧
    (∀ (b : Nat) (m : Method Conn) (closed : Bool),
      s.calls[b]? = some (.visit m (.returned closed)) →
      (methodAnswer closed m).err = some .errClosed →
      ∃ a, (a, .closed) ∈ s.order ∧ Before (s.order.map Prod.fst) a b) ∧
    Inevitable (OwnStep Nat.succ)
      (fun t => ∀ call ∈ t.calls, (answer call).isSome = true) s := by
  have hgated := gate_linearizable hs
  refine ⟨hgated, hgated.data_eq, fun a ha => ?_,
    fun a b m closed hbefore ha hb => ?_,
    fun b m closed hb herr => ?_, (calls_end hs).mono fun t ht => ?_⟩
  · rw [hgated.data_eq, closed_of_returned hgated ha]
    rfl
  · obtain rfl := hgated.refused a b m closed hbefore ha hb
    exact err_methodAnswer m true
  · cases closed with
    | true => exact hgated.passed b m hb
    | false =>
        rw [err_methodAnswer m false] at herr
        cases herr
  · intro call hcall
    have hreturned := ht call hcall
    match call with
    | .visit m (.returned closed) => rfl
    | .close .returned => rfl

/-- One `Acquire` before two `Close`s and one after. -/
theorem pool_closes_once_two :
    ∃ s : State Nat, Reaches Step (.initial 0) s ∧
      s.calls.map answer = [some (.acquired none none), some (.finished none),
        some (.finished none), some (.acquired none (some .errClosed))] ∧
      Gated Nat.succ 0 s ∧ s.gate.data = 1 := by
  have hopen : Reaches Step (.initial 0 : State Nat) _ :=
    (((Reaches.single (.visit _ .acquire)).tail
      (.move _ 0 _ _ _ _ rfl (.locks _ rfl))).tail
      (.move _ 0 _ _ _ _ rfl (.reads _))).tail
      (.move _ 0 _ _ _ _ rfl (.returns _ _))
  have hbody := ((((hopen.tail (.close _)).tail
    (.move _ 1 _ _ _ _ rfl (.misses rfl))).tail
    (.move _ 1 _ _ _ _ rfl (.enters rfl))).tail
    (.move _ 1 _ _ _ _ rfl (.begins rfl))).tail
    (.move _ 1 _ _ _ _ rfl (.locksToClose rfl))
  have hclosed := (hbody.tail (.move _ 1 _ _ _ _ rfl .closes)).tail
    (.move _ 1 _ _ _ _ rfl .leaves)
  have hagain := (hclosed.tail (.close _)).tail
    (.move _ 2 _ _ _ _ rfl (.skips rfl))
  have hrefused := (((hagain.tail (.visit _ .acquire)).tail
    (.move _ 3 _ _ _ _ rfl (.locks _ rfl))).tail
    (.move _ 3 _ _ _ _ rfl (.reads _))).tail
    (.move _ 3 _ _ _ _ rfl (.returns _ _))
  obtain ⟨hgated, -, honce, -⟩ := pool_closes_once hrefused
  exact ⟨_, hrefused, rfl, hgated, honce 1 rfl⟩

end GoPrep.Ports.LldConnectionPool
