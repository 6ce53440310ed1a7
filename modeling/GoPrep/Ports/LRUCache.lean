import Mathlib.Data.PNat.Basic
import GoPrep.Verified.LRU
import GoPrep.Verified.Transition

/-!
# The LRU cache with a time to live

A port of `cacheImpl` in `src/go-concurrency-practice/final_LRU-cache-with-ttl/
library.go`.  The source does not implement `LRUMap`: it states what it expects
it to expose, and that is a parameter here, an `LRUMap` with its laws over the
library's `LRU`.  `c.LRUMap` of the source is the field `cache`.

An instant is a number of nanoseconds since the zero time of Go; what
`time.Now` returns is later than that.  A duration is signed.

`Put` does not look at its `ttl`, and nothing else writes the one of a node.

## Main results

* `get_eq` — from every reached cache `Get` answers `("", false)`;
* `obeysTTL_iff` — a run keeps the law of the time to live exactly when no
  `Get` of it finds its key in the cache before the time has elapsed.
-/

namespace GoPrep.Ports.LRUCache

open GoPrep.Verified
open GoPrep.Verified.Transition

/-- `Node`, without the links of the list. -/
structure Node where
  key : String
  val : String
  ttl : Nat
  deriving DecidableEq, Repr

/-- What the index expression of a Go map yields for a missing key. -/
def Node.zero : Node := ⟨"", "", 0⟩

/-- A correct LRU map with the operations the source lists; `Put` writes the
key and the value of a node, and changes nothing when it fails. -/
structure LRUMap (capacity : Nat) where
  Map : Type
  contents : Map → LRU String Node capacity
  make : Map
  Get : Map → String → (String × Bool) × Map
  Put : Map → String → String → Except String Map
  Delete : Map → String → Map
  /-- The index expression of the underlying Go map. -/
  node : Map → String → Node
  contents_make : contents make = LRU.empty
  get_value (m : Map) (key : String) :
    (Get m key).1 =
      match (contents m).lookup key with
      | none => ("", false)
      | some n => (n.val, true)
  get_contents (m : Map) (key : String) :
    contents (Get m key).2 = (contents m).touch key
  put_contents (m m' : Map) (key value : String) : Put m key value = .ok m' →
    contents m' = (contents m).put key
      { ((contents m).lookup key).getD Node.zero with
        key := key, val := value }
  delete_contents (m : Map) (key : String) :
    contents (Delete m key) = (contents m).erase key
  node_eq (m : Map) (key : String) :
    node m key = ((contents m).lookup key).getD Node.zero

/-- The library's map is one, and never fails. -/
def LRUMap.ofLRU (capacity : Nat) : LRUMap capacity where
  Map := LRU String Node capacity
  contents m := m
  make := LRU.empty
  Get m key :=
    (match m.lookup key with
      | none => ("", false)
      | some n => (n.val, true), m.touch key)
  Put m key value :=
    .ok (m.put key
      { (m.lookup key).getD Node.zero with key := key, val := value })
  Delete m key := m.erase key
  node m key := (m.lookup key).getD Node.zero
  contents_make := rfl
  get_value _ _ := rfl
  get_contents _ _ := rfl
  put_contents _ _ _ _ h := by cases h; rfl
  delete_contents _ _ := rfl
  node_eq _ _ := rfl

variable {capacity : Nat} {M : LRUMap capacity}

/-! ## The cache -/

structure CacheImpl (M : LRUMap capacity) where
  cache : M.Map
  /-- Whether the context of the cache is cancelled. -/
  ctxDone : Bool

namespace CacheImpl

def new (M : LRUMap capacity) : CacheImpl M := ⟨M.make, false⟩

def get (c : CacheImpl M) (key : String) (now : ℕ+) :
    (String × Bool) × CacheImpl M :=
  if c.ctxDone then (("", false), c)
  else
    let ((val, ok), cache) := M.Get c.cache key
    if !ok then (("", false), { c with cache := cache })
    else if (M.node cache key).ttl < now then
      (("", false), { c with cache := M.Delete cache key })
    else ((val, true), { c with cache := cache })

def put (c : CacheImpl M) (key value : String) (_ttl : Int) :
    Except String (CacheImpl M) :=
  if c.ctxDone then .error "cache is closed"
  else
    match M.Put c.cache key value with
    | .error _ => .error "error while inserting"
    | .ok cache => .ok { c with cache := cache }

/-- The key is in the map. -/
def Holds (c : CacheImpl M) (key : String) : Prop :=
  ((M.contents c.cache).lookup key).isSome

end CacheImpl

/-! ## Runs -/

inductive Action
  | get (key : String) (now : ℕ+)
  | put (key value : String) (ttl : Int) (now : ℕ+)
  deriving DecidableEq, Repr

def Action.now : Action → ℕ+
  | .get _ now => now
  | .put _ _ _ now => now

/-- What a `Put` that returned nil stored, and when. -/
structure Stored where
  value : String
  ttl : Int
  time : ℕ+
  deriving DecidableEq, Repr

def Stored.elapsed (p : Stored) (now : ℕ+) : Int := (now : Int) - (p.time : Int)

/-- The cache, the last `Put` of each key and the time of the last call. -/
structure State (M : LRUMap capacity) where
  impl : CacheImpl M
  puts : String → Option Stored
  clock : ℕ+

namespace State

def start (M : LRUMap capacity) (clock : ℕ+) : State M :=
  ⟨.new M, fun _ => none, clock⟩

def call (s : State M) : Action → State M
  | .get key now => { s with impl := (s.impl.get key now).2, clock := now }
  | .put key value ttl now =>
      match s.impl.put key value ttl with
      | .error _ => { s with clock := now }
      | .ok impl =>
          { impl := impl
            puts := Function.update s.puts key (some ⟨value, ttl, now⟩)
            clock := now }

/-- The states that calls lead through. -/
def trace (s : State M) : List Action → List (Action × State M)
  | [] => []
  | a :: rest => (a, s.call a) :: (s.call a).trace rest

end State

/-- One call, not before the last one. -/
def Step (s : State M) (a : Action) (t : State M) : Prop :=
  s.clock ≤ a.now ∧ t = s.call a

/-- **The law of the time to live**, for one call. -/
def ObeysTTL (s : State M) : Action → Prop
  | .put _ _ _ _ => True
  | .get key now =>
      ∀ p, s.puts key = some p →
        (s.impl.Holds key ∧ p.elapsed now < p.ttl →
          (s.impl.get key now).1 = (p.value, true)) ∧
        (p.ttl < p.elapsed now → (s.impl.get key now).1.2 = false)

/-- The call is no `Get` of a key that is in the cache and whose time to live
has not elapsed. -/
def NotLive (s : State M) : Action → Prop
  | .put _ _ _ _ => True
  | .get key now =>
      ∀ p, s.puts key = some p →
        ¬ (s.impl.Holds key ∧ p.elapsed now < p.ttl)

/-! ## The expiry of the nodes -/

/-- The cache is open and every node has the zero time. -/
def Unexpiring (c : CacheImpl M) : Prop :=
  c.ctxDone = false ∧ ∀ e ∈ (M.contents c.cache).entries, e.2.ttl = 0

theorem unexpiring_new (M : LRUMap capacity) : Unexpiring (.new M) := by
  refine ⟨rfl, fun e he => ?_⟩
  rw [CacheImpl.new, M.contents_make] at he
  exact absurd he List.not_mem_nil

/-- Whatever the key, what the map yields for it has the zero time. -/
theorem ttl_getD_lookup {c : LRU String Node capacity}
    (h : ∀ e ∈ c.entries, e.2.ttl = 0) (key : String) :
    ((c.lookup key).getD Node.zero).ttl = 0 := by
  cases hlookup : c.lookup key with
  | none => rfl
  | some n => exact h _ (LRU.mem_of_lookup hlookup)

/-- **`Get` takes every node for expired.** -/
theorem get_eq {c : CacheImpl M} (hc : Unexpiring c) (key : String)
    (now : ℕ+) : (c.get key now).1 = ("", false) := by
  have hcontents := LRU.forall_touch hc.2 key
  rw [← M.get_contents] at hcontents
  have httl := ttl_getD_lookup hcontents key
  rw [← M.node_eq] at httl
  simp only [CacheImpl.get, hc.1, Bool.false_eq_true, if_false, httl,
    now.pos, if_true]
  split <;> rfl

theorem unexpiring_get {c : CacheImpl M} (hc : Unexpiring c) (key : String)
    (now : ℕ+) : Unexpiring (c.get key now).2 := by
  have hcontents := LRU.forall_touch hc.2 key
  rw [← M.get_contents] at hcontents
  simp only [CacheImpl.get, hc.1, Bool.false_eq_true, if_false]
  split
  · exact ⟨rfl, hcontents⟩
  · split
    · refine ⟨rfl, ?_⟩
      rw [M.delete_contents]
      exact LRU.forall_erase hcontents key
    · exact ⟨rfl, hcontents⟩

/-- **`Put` leaves the time of the node as it was.** -/
theorem unexpiring_put {c c' : CacheImpl M} (hc : Unexpiring c)
    {key value : String} {ttl : Int} (hput : c.put key value ttl = .ok c') :
    Unexpiring c' := by
  simp only [CacheImpl.put, hc.1, Bool.false_eq_true, if_false] at hput
  split at hput
  · cases hput
  next cache hcache =>
    cases hput
    refine ⟨rfl, ?_⟩
    rw [M.put_contents _ _ _ _ hcache]
    exact LRU.forall_put hc.2 (ttl_getD_lookup hc.2 key)

theorem unexpiring_call {s : State M} (hs : Unexpiring s.impl) (a : Action) :
    Unexpiring (s.call a).impl := by
  cases a with
  | get key now => exact unexpiring_get hs key now
  | put key value ttl now =>
      simp only [State.call]
      split
      · exact hs
      next hput => exact unexpiring_put hs hput

/-! ## The law -/

/-- Since every answer is negative, the law asks that no positive one is due. -/
theorem obeysTTL_iff_notLive {s : State M} (hs : Unexpiring s.impl)
    (a : Action) : ObeysTTL s a ↔ NotLive s a := by
  cases a with
  | put => exact Iff.rfl
  | get key now =>
      simp [ObeysTTL, NotLive, get_eq hs]

/-- **The law of the time to live.** -/
theorem obeysTTL_iff {start : ℕ+} {run : List (Action × State M)}
    (hrun : IsRun Step (State.start M start) run) :
    StepsAll ObeysTTL (State.start M start) run ↔
      StepsAll NotLive (State.start M start) run := by
  refine stepsAll_congr (I := fun s => Unexpiring s.impl) ?_ ?_ hrun
    (unexpiring_new M)
  · rintro s a t hs ⟨-, rfl⟩
    exact unexpiring_call hs a
  · exact fun s a hs => obeysTTL_iff_notLive hs a

/-- An entry looked up after its time has elapsed. -/
theorem obeysTTL_iff_late :
    StepsAll ObeysTTL (State.start (.ofLRU 1) 1)
      ((State.start (.ofLRU 1) 1).trace
        [.put "a" "1" 5 1, .get "a" 10]) := by
  have hrun : IsRun Step (State.start (.ofLRU 1) 1)
      ((State.start (.ofLRU 1) 1).trace
        [.put "a" "1" 5 1, .get "a" 10]) :=
    ⟨⟨by decide, rfl⟩, ⟨by decide, rfl⟩, trivial⟩
  refine (obeysTTL_iff hrun).mpr ⟨trivial, ?_, trivial⟩
  intro p hp
  cases hp
  rintro ⟨-, hlive⟩
  exact absurd hlive (by decide)

/-- **A fresh entry is not found.** -/
theorem get_misses_live :
    let s := State.start (.ofLRU 1) 1
    let run := s.trace [.put "a" "1" 10 1, .get "a" 2]
    IsRun Step s run ∧ ¬ StepsAll ObeysTTL s run := by
  refine ⟨⟨⟨by decide, rfl⟩, ⟨by decide, rfl⟩, trivial⟩, fun h => ?_⟩
  have hget := (h.2.1 ⟨"1", 10, 1⟩ rfl).1 ⟨rfl, by decide⟩
  exact absurd (congrArg Prod.snd hget) (by decide)

end GoPrep.Ports.LRUCache
