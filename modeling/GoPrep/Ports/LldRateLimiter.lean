import Mathlib.Algebra.Ring.Int.Defs
import GoPrep.Verified.OnceGate

/-!
# The rate limiter

A port of `src/go-concurrency-practice/lld-rate-limiter.go`.  The constructor
validates its configuration; `Allow` holds `mu` from its closed check to its
return and lets every request through, since the source leaves the counting to
a real implementation; `Close` is a `sync.Once` that sets the flag and stops
the cleanup ticker under `mu`.

The per-key state is left out, which no method reads or writes; so are the
context and the key, which `Allow` does not look at.

## Main results

* `newRateLimiter_ok_iff` — which configurations are accepted, and what is
  stored.
* `limiter_closes_once` — the answers of concurrent calls, and the ticker.
-/

namespace GoPrep.Ports.LldRateLimiter

open GoPrep.Verified.OnceGate
open GoPrep.Verified.RealTime
open GoPrep.Verified.Transition

inductive LimiterError
  | errClosed
  | errRateLimitExceeded
  | errInvalidMaxRequests
  | errInvalidWindowDuration
  deriving DecidableEq, Repr

/-! ## `NewRateLimiter` -/

/-- Durations are in nanoseconds. -/
structure Config where
  windowDuration : Int
  maxRequests : Int
  cleanupInterval : Int
  deriving DecidableEq, Repr

/-- Five minutes. -/
def defaultCleanupInterval : Int := 5 * 60 * 1000000000

/-- The configuration that the limiter stores, and starts its ticker with. -/
def newRateLimiter (cfg : Config) : Except LimiterError Config :=
  if cfg.maxRequests ≤ 0 then .error .errInvalidMaxRequests
  else if cfg.windowDuration ≤ 0 then .error .errInvalidWindowDuration
  else if cfg.cleanupInterval ≤ 0 then
    .ok { cfg with cleanupInterval := defaultCleanupInterval }
  else .ok cfg

/-- What the methods may rely on; `time.NewTicker` panics without it. -/
structure Config.Valid (cfg : Config) : Prop where
  maxRequests_pos : 0 < cfg.maxRequests
  windowDuration_pos : 0 < cfg.windowDuration
  cleanupInterval_pos : 0 < cfg.cleanupInterval

/-- **The constructor accepts exactly the configurations with a positive limit
and window.**  What it stores is valid, differs in the interval at most, and
is accepted as it is. -/
theorem newRateLimiter_ok_iff (cfg : Config) :
    ((∃ stored, newRateLimiter cfg = .ok stored) ↔
      0 < cfg.maxRequests ∧ 0 < cfg.windowDuration) ∧
    ∀ stored, newRateLimiter cfg = .ok stored → stored.Valid ∧
      stored = { cfg with cleanupInterval := stored.cleanupInterval } ∧
      newRateLimiter stored = .ok stored := by
  unfold newRateLimiter
  split
  next hmax =>
    refine ⟨⟨?_, fun h => by omega⟩, fun stored h => by cases h⟩
    rintro ⟨_, h⟩
    cases h
  next hmax =>
    split
    next hwindow =>
      refine ⟨⟨?_, fun h => by omega⟩, fun stored h => by cases h⟩
      rintro ⟨_, h⟩
      cases h
    next hwindow =>
      have hpos : 0 < cfg.maxRequests ∧ 0 < cfg.windowDuration := by omega
      split
      next =>
        refine ⟨⟨fun _ => hpos, fun _ => ⟨_, rfl⟩⟩, fun stored h => ?_⟩
        obtain rfl := Except.ok.inj h
        have hdefault : 0 < defaultCleanupInterval := by decide
        refine ⟨⟨hpos.1, hpos.2, hdefault⟩, rfl, ?_⟩
        simp only [if_neg hmax, if_neg hwindow]
        rfl
      next hinterval =>
        refine ⟨⟨fun _ => hpos, fun _ => ⟨_, rfl⟩⟩, fun stored h => ?_⟩
        obtain rfl := Except.ok.inj h
        refine ⟨⟨hpos.1, hpos.2, by omega⟩, rfl, ?_⟩
        rw [if_neg hmax, if_neg hwindow, if_neg hinterval]

/-! ## The methods -/

/-- `Allow` after it has read the flag. -/
def allow (closed : Bool) : Bool × Option LimiterError :=
  if closed then (false, some .errClosed) else (true, none)

/-- Whether the cleanup ticker runs. -/
abbrev Ticker := Bool

def Ticker.stop (_ticker : Ticker) : Ticker := false

/-- The calls on one limiter, whose ticker has been started. -/
abbrev State := GoPrep.Verified.OnceGate.State Unit Ticker

abbrev Step : State → Action Unit → State → Prop :=
  GoPrep.Verified.OnceGate.Step Ticker.stop

/-- **The limiter closes once and for all.**  In every state reachable by any
interleaving of `Allow` and `Close` calls: they are those of a gate that the
first `Close` shuts, in an order that respects real time; the ticker runs
exactly until then; an `Allow` that begins after some `Close` has returned
answers `(false, ErrClosed)`, and one that does not let the request through
comes after some `Close` in this order; and all calls return, in every
schedule. -/
theorem limiter_closes_once {s : State} (hs : Reaches Step (.initial true) s) :
    Gated Ticker.stop true s ∧
    s.gate.data = !s.gate.closed ∧
    (∀ (a b : Nat) (closed : Bool),
      Before s.history (.respond a) (.invoke b) →
      s.calls[a]? = some (.close .returned) →
      s.calls[b]? = some (.visit () (.returned closed)) →
      allow closed = (false, some .errClosed)) ∧
    (∀ (b : Nat) (closed : Bool),
      s.calls[b]? = some (.visit () (.returned closed)) →
      allow closed ≠ (true, none) →
      ∃ a, (a, .closed) ∈ s.order ∧ Before (s.order.map Prod.fst) a b) ∧
    Inevitable (OwnStep Ticker.stop)
      (fun t => ∀ call ∈ t.calls, call.hasReturned = true) s := by
  have hgated := gate_linearizable hs
  refine ⟨hgated, ?_, fun a b closed hbefore ha hb => ?_,
    fun b closed hb hanswer => ?_, calls_end hs⟩
  · rw [hgated.data_eq]
    cases s.gate.closed <;> rfl
  · obtain rfl := hgated.refused a b () closed hbefore ha hb
    rfl
  · cases closed with
    | true => exact hgated.passed b () hb
    | false => exact absurd rfl hanswer

/-- Two `Close`s race, and an `Allow` begins when the second one, which waits
for the first, has returned. -/
theorem limiter_closes_once_race :
    ∃ s : State, Reaches Step (.initial true) s ∧
      s.calls = [.close .returned, .close .returned,
        .visit () (.returned true)] ∧
      s.gate.data = false ∧ allow true = (false, some .errClosed) ∧
      Inevitable (OwnStep Ticker.stop)
        (fun t => ∀ call ∈ t.calls, call.hasReturned = true) s := by
  have hboth : Reaches Step (.initial true : State) _ :=
    (((Reaches.single (.close _)).tail (.close _)).tail
      (.move _ 0 _ _ _ _ rfl (.misses rfl))).tail
      (.move _ 1 _ _ _ _ rfl (.misses rfl))
  have hbody := ((((hboth.tail
    (.move _ 0 _ _ _ _ rfl (.enters rfl))).tail
    (.move _ 0 _ _ _ _ rfl (.begins rfl))).tail
    (.move _ 0 _ _ _ _ rfl (.locksToClose rfl))).tail
    (.move _ 0 _ _ _ _ rfl .closes)).tail
    (.move _ 0 _ _ _ _ rfl .leaves)
  have hclosed := (hbody.tail
    (.move _ 1 _ _ _ _ rfl (.enters rfl))).tail
    (.move _ 1 _ _ _ _ rfl (.finds rfl))
  have hrefused := (((hclosed.tail (.visit _ ())).tail
    (.move _ 2 _ _ _ _ rfl (.locks _ rfl))).tail
    (.move _ 2 _ _ _ _ rfl (.reads _))).tail
    (.move _ 2 _ _ _ _ rfl (.returns _ _))
  obtain ⟨-, hticker, hanswers, -, hend⟩ := limiter_closes_once hrefused
  exact ⟨_, hrefused, rfl, hticker,
    hanswers 1 2 true (by unfold Before; decide) rfl rfl, hend⟩

end GoPrep.Ports.LldRateLimiter
