import GoPrep.Verified.Inevitable
import GoPrep.Verified.Linearization

/-!
# A flag that is closed once

An object whose methods read a flag under a mutex, and whose `close` sets the
flag and tears the rest down, under the same mutex and inside a once: the call
that comes first runs the body, the others wait until it has, and later ones
see at a glance that it has.

Sequentially this is a gate: open methods pass, `close` shuts it and tears
down, and from then on methods are refused and `close` does nothing.

## Main results

* `Invariant.step` — both mutexes exclude, and the flag is set exactly when
  the body has run.
* `gate_linearizable` — the calls are those of the gate, in an order that
  respects real time.
* `Gated.refused`, `Gated.passed` — a method that begins after a `close` has
  returned is refused; one is refused only after some `close`.
* `calls_end` — every call returns, in every schedule.
-/

namespace GoPrep.Verified.OnceGate

open GoPrep.Verified.Linearization
open GoPrep.Verified.RealTime
open GoPrep.Verified.ThreadTable
open GoPrep.Verified.Transition

/-- Where a method stands: before the statement named. -/
inductive VisitPc
  | locking
  | reading
  | leaving (sawClosed : Bool)
  | returned (sawClosed : Bool)
  deriving DecidableEq, Repr

/-- Where a `close` stands.  `once` tests whether the body has run, `slow`
takes the mutex of the once, `entered` tests again; `locking` and `closing`
are the body, and `leaving` marks it as run. -/
inductive ClosePc
  | once
  | slow
  | entered
  | locking
  | closing
  | leaving
  | returned
  deriving DecidableEq, Repr

inductive Call (μ : Type*)
  | visit (m : μ) (pc : VisitPc)
  | close (pc : ClosePc)
  deriving DecidableEq, Repr

/-- The object, besides what its methods do with it. -/
structure Gate (δ : Type*) where
  mu : Option Nat
  onceDone : Bool
  onceMutex : Option Nat
  closed : Bool
  data : δ
  deriving DecidableEq, Repr

def Gate.initial {δ : Type*} (data : δ) : Gate δ :=
  { mu := none, onceDone := false, onceMutex := none, closed := false,
    data := data }

/-- What a call does to the gate: a method sees the flag, `close` shuts it. -/
inductive Effect (μ : Type*)
  | visited (m : μ) (sawClosed : Bool)
  | closed
  deriving DecidableEq, Repr

variable {μ δ : Type*} {teardown : δ → δ}

namespace Call

def effect : Call μ → Option (Effect μ)
  | .visit m (.leaving sawClosed) => some (.visited m sawClosed)
  | .visit m (.returned sawClosed) => some (.visited m sawClosed)
  | .close .leaving => some .closed
  | .close .returned => some .closed
  | _ => none

def hasReturned : Call μ → Bool
  | .visit _ (.returned _) => true
  | .close .returned => true
  | _ => false

def holdsMu : Call μ → Bool
  | .visit _ .reading => true
  | .close .closing => true
  | _ => false

/-- The call is in the body of the once. -/
def inBody : Call μ → Bool
  | .close .locking => true
  | .close .closing => true
  | .close .leaving => true
  | _ => false

def holdsOnce : Call μ → Bool
  | .close .entered => true
  | call => call.inBody

/-- The call has set the flag and is still in the body. -/
def hasClosed : Call μ → Bool
  | .close .leaving => true
  | _ => false

end Call

/-- Call `c` moves from the first `Call` to the second. -/
inductive Moves (teardown : δ → δ) (g : Gate δ) (c : Nat) :
    Call μ → Call μ → Gate δ → Option (Effect μ) → Prop
  -- a method
  | locks (m : μ) : g.mu = none →
      Moves teardown g c (.visit m .locking) (.visit m .reading)
        { g with mu := some c } none
  | reads (m : μ) :
      Moves teardown g c (.visit m .reading) (.visit m (.leaving g.closed))
        { g with mu := none } (some (.visited m g.closed))
  | returns (m : μ) (sawClosed : Bool) :
      Moves teardown g c (.visit m (.leaving sawClosed))
        (.visit m (.returned sawClosed)) g none
  -- `close`
  | skips : g.onceDone = true →
      Moves teardown g c (.close .once) (.close .returned) g (some .closed)
  | misses : g.onceDone = false →
      Moves teardown g c (.close .once) (.close .slow) g none
  | enters : g.onceMutex = none →
      Moves teardown g c (.close .slow) (.close .entered)
        { g with onceMutex := some c } none
  | finds : g.onceDone = true →
      Moves teardown g c (.close .entered) (.close .returned)
        { g with onceMutex := none } (some .closed)
  | begins : g.onceDone = false →
      Moves teardown g c (.close .entered) (.close .locking) g none
  | locksToClose : g.mu = none →
      Moves teardown g c (.close .locking) (.close .closing)
        { g with mu := some c } none
  | closes :
      Moves teardown g c (.close .closing) (.close .leaving)
        { g with mu := none, closed := true, data := teardown g.data }
        (some .closed)
  | leaves :
      Moves teardown g c (.close .leaving) (.close .returned)
        { g with onceDone := true, onceMutex := none } none

/-- The gate and the calls on it, with the order of their effects and the
history of their invocations and responses. -/
structure State (μ δ : Type*) where
  gate : Gate δ
  calls : List (Call μ)
  order : List (Nat × Effect μ)
  history : List Event

def State.initial (data : δ) : State μ δ :=
  { gate := .initial data, calls := [], order := [], history := [] }

def State.begin (s : State μ δ) (call : Call μ) : State μ δ :=
  { s with
    calls := s.calls ++ [call]
    history := s.history ++ [.invoke s.calls.length] }

inductive Action (μ : Type*)
  | visit (m : μ)
  | close
  | move (c : Nat)
  deriving DecidableEq, Repr

inductive Step (teardown : δ → δ) :
    State μ δ → Action μ → State μ δ → Prop
  | visit (s : State μ δ) (m : μ) :
      Step teardown s (.visit m) (s.begin (.visit m .locking))
  | close (s : State μ δ) :
      Step teardown s .close (s.begin (.close .once))
  | move (s : State μ δ) (c : Nat) (old new : Call μ) (gate : Gate δ)
      (effect : Option (Effect μ)) : s.calls[c]? = some old →
      Moves teardown s.gate c old new gate effect →
      Step teardown s (.move c)
        { gate := gate
          calls := s.calls.set c new
          order := s.order ++ (effect.map fun e => (c, e)).toList
          history := s.history ++ respond Call.hasReturned c old new }

/-! ## The sequential gate -/

/-- Whether the gate is shut, and the data behind it. -/
inductive Takes (teardown : δ → δ) :
    Bool × δ → Effect μ → Bool × δ → Prop
  | visited (closed : Bool) (data : δ) (m : μ) :
      Takes teardown (closed, data) (.visited m closed) (closed, data)
  | closes (data : δ) :
      Takes teardown (false, data) .closed (true, teardown data)
  | closesAgain (data : δ) :
      Takes teardown (true, data) .closed (true, data)

/-! ## The invariant -/

structure Invariant (teardown : δ → δ) (data : δ) (s : State μ δ) :
    Prop where
  mu : OwnedBy Call.holdsMu s.calls s.gate.mu
  once : OwnedBy Call.holdsOnce s.calls s.gate.onceMutex
  /-- The flag is set exactly when the body has set it. -/
  flag : s.gate.closed = (s.gate.onceDone || s.calls.any Call.hasClosed)
  pending : s.gate.onceDone = true → ∀ call ∈ s.calls, call.inBody = false
  linearizes : Linearizes Call.effect Call.hasReturned s.calls s.order
    s.history
  legal : Legal (Takes teardown) (false, data) (s.order.map Prod.snd)
    (s.gate.closed, s.gate.data)

theorem invariant_initial (teardown : δ → δ) (data : δ) :
    Invariant teardown data (.initial data : State μ δ) where
  mu := .nil _
  once := .nil _
  flag := rfl
  pending := fun hdone => by cases hdone
  linearizes := .nil _ _
  legal := .nil

namespace Moves

variable {g g' : Gate δ} {c : Nat} {old new : Call μ}
  {effect : Option (Effect μ)}

theorem takesEffect (h : Moves teardown g c old new g' effect)
    (order : List (Nat × Effect μ)) :
    TakesEffect Call.effect Call.hasReturned c old new order
      (order ++ (effect.map fun e => (c, e)).toList) := by
  cases h with
  | reads | skips | finds | closes => exact .inr ⟨_, rfl, rfl, rfl, rfl⟩
  | _ => exact .inl ⟨List.append_nil _, rfl⟩

theorem hasReturned (h : Moves teardown g c old new g' effect)
    (hold : old.hasReturned = true) : new.hasReturned = true := by
  cases h with
  | _ => cases hold

theorem passesMu (h : Moves teardown g c old new g' effect) :
    OwnedBy.Passes c g.mu old.holdsMu g'.mu new.holdsMu := by
  cases h with
  | locks m hfree => exact .takes hfree
  | locksToClose hfree => exact .takes hfree
  | reads | closes => exact .gives rfl
  | _ => exact .keeps

theorem passesOnce (h : Moves teardown g c old new g' effect) :
    OwnedBy.Passes c g.onceMutex old.holdsOnce g'.onceMutex
      new.holdsOnce := by
  cases h with
  | enters hfree => exact .takes hfree
  | finds | leaves => exact .gives rfl
  | _ => exact .keeps

/-- What a move does to the flag. -/
theorem flag_cases (h : Moves teardown g c old new g' effect) :
    (g'.closed = g.closed ∧ g'.onceDone = g.onceDone ∧
      new.hasClosed = old.hasClosed) ∨
    (g'.closed = true ∧ new.hasClosed = true) ∨
    (g'.closed = g.closed ∧ g'.onceDone = true ∧ old.hasClosed = true) := by
  cases h with
  | closes => exact .inr (.inl ⟨rfl, rfl⟩)
  | leaves => exact .inr (.inr ⟨rfl, rfl, rfl⟩)
  | _ => exact .inl ⟨rfl, rfl, rfl⟩

/-- The body is entered when it has not run, and marked by who runs it. -/
theorem pending_cases (h : Moves teardown g c old new g' effect) :
    (g'.onceDone = g.onceDone ∧
      (new.inBody = true → old.inBody = true ∨ g.onceDone = false)) ∨
    (old.holdsOnce = true ∧ new.inBody = false) := by
  cases h with
  | leaves => exact .inr ⟨rfl, rfl⟩
  | begins hdone => exact .inl ⟨rfl, fun _ => .inr hdone⟩
  | locksToClose | closes => exact .inl ⟨rfl, fun _ => .inl rfl⟩
  | _ => exact .inl ⟨rfl, fun hbody => by cases hbody⟩

/-- **A move that takes effect is a step of the sequential gate.** -/
theorem takes (h : Moves teardown g c old new g' effect)
    (hdone : g.onceDone = true → g.closed = true)
    (hopen : old = .close .closing → g.closed = false) :
    (effect = none ∧ g'.closed = g.closed ∧ g'.data = g.data) ∨
    ∃ e, effect = some e ∧
      Takes teardown (g.closed, g.data) e (g'.closed, g'.data) := by
  cases h with
  | reads m => exact .inr ⟨_, rfl, .visited _ _ m⟩
  | skips hskip | finds hskip =>
      refine .inr ⟨_, rfl, ?_⟩
      show Takes teardown (g.closed, g.data) .closed (g.closed, g.data)
      rw [hdone hskip]
      exact .closesAgain _
  | closes =>
      refine .inr ⟨_, rfl, ?_⟩
      rw [hopen rfl]
      exact .closes _
  | _ => exact .inl ⟨rfl, rfl, rfl⟩

end Moves

theorem Call.holdsOnce_of_inBody {call : Call μ} (h : call.inBody = true) :
    call.holdsOnce = true := by
  match call with
  | .close .locking | .close .closing | .close .leaving => rfl

theorem Call.inBody_of_hasClosed {call : Call μ}
    (h : call.hasClosed = true) : call.inBody = true := by
  match call with
  | .close .leaving => rfl

/-- Two tables that agree on a test have it or have it not. -/
theorem any_congr_map {τ : Type*} {p : τ → Bool} {ts ts' : List τ}
    (heq : ts'.map p = ts.map p) : ts'.any p = ts.any p := by
  have hany := congrArg (fun bs : List Bool => bs.any id) heq
  simpa [List.any_map] using hany

namespace Invariant

variable {data : δ} {s t : State μ δ} {a : Action μ}

theorem closed_of_done (h : Invariant teardown data s)
    (hdone : s.gate.onceDone = true) : s.gate.closed = true := by
  rw [h.flag, hdone]
  rfl

/-- The flag is not set when the body is about to set it. -/
theorem open_of_closing (h : Invariant teardown data s) {c : Nat}
    (hc : s.calls[c]? = some (.close .closing)) : s.gate.closed = false := by
  have hmem := List.mem_of_getElem? hc
  have hdone : s.gate.onceDone = false := by
    cases hcase : s.gate.onceDone with
    | false => rfl
    | true => cases h.pending hcase _ hmem
  have hnone : s.calls.any Call.hasClosed = false := by
    rw [List.any_eq_false]
    intro call hcall hclosed
    obtain ⟨d, hd⟩ := List.mem_iff_getElem?.mp hcall
    have hholds := Call.holdsOnce_of_inBody (Call.inBody_of_hasClosed hclosed)
    by_cases hdc : d = c
    · subst hdc
      obtain rfl := Option.some.inj (hd.symm.trans hc)
      cases hclosed
    · rw [h.once.excludes hc hd hdc rfl] at hholds
      cases hholds
  rw [h.flag, hdone, hnone]
  rfl

theorem begin (h : Invariant teardown data s) {call : Call μ}
    (heffect : call.effect = none) (hreturned : call.hasReturned = false)
    (hmu : call.holdsMu = false) (honce : call.holdsOnce = false) :
    Invariant teardown data (s.begin call) where
  mu := h.mu.concat hmu
  once := h.once.concat honce
  flag := by
    have hclosed : call.hasClosed = false := by
      cases hcase : call.hasClosed with
      | false => rfl
      | true =>
          rw [Call.holdsOnce_of_inBody (Call.inBody_of_hasClosed hcase)]
            at honce
          cases honce
    show s.gate.closed = (s.gate.onceDone || (s.calls ++ [call]).any _)
    rw [List.any_append, List.any_cons, hclosed, List.any_nil,
      Bool.or_false, Bool.or_false]
    exact h.flag
  pending := fun hdone => forall_mem_concat (h.pending hdone) (by
    cases hcase : call.inBody with
    | false => rfl
    | true =>
        rw [Call.holdsOnce_of_inBody hcase] at honce
        cases honce)
  linearizes := h.linearizes.begin heffect hreturned
  legal := h.legal

/-- The flag after a move. -/
theorem flag_move (h : Invariant teardown data s) {c : Nat} {old new : Call μ}
    {g : Gate δ} {effect : Option (Effect μ)} (hc : s.calls[c]? = some old)
    (hmove : Moves teardown s.gate c old new g effect) :
    g.closed = (g.onceDone || (s.calls.set c new).any Call.hasClosed) := by
  rcases hmove.flag_cases with ⟨hclosed, hdone, hsame⟩ | ⟨hclosed, hnew⟩ |
    ⟨hclosed, hdone, hold⟩
  · rw [hclosed, hdone, any_congr_map (map_set_of_eq _ hc hsame)]
    exact h.flag
  · have hany : (s.calls.set c new).any Call.hasClosed = true :=
      List.any_eq_true.mpr ⟨new, List.mem_of_getElem?
        (List.getElem?_set_self (lt_length_of_getElem? hc)), hnew⟩
    rw [hclosed, hany, Bool.or_true]
  · have hany : s.calls.any Call.hasClosed = true :=
      List.any_eq_true.mpr ⟨old, List.mem_of_getElem? hc, hold⟩
    rw [hclosed, hdone, h.flag, hany, Bool.or_true]
    rfl

/-- Who is in the body after a move. -/
theorem pending_move (h : Invariant teardown data s) {c : Nat}
    {old new : Call μ} {g : Gate δ} {effect : Option (Effect μ)}
    (hc : s.calls[c]? = some old)
    (hmove : Moves teardown s.gate c old new g effect)
    (hdone : g.onceDone = true) :
    ∀ call ∈ s.calls.set c new, call.inBody = false := by
  rcases hmove.pending_cases with ⟨hsame, hbody⟩ | ⟨hold, hnew⟩
  · rw [hsame] at hdone
    refine forall_mem_set (h.pending hdone) ?_
    cases hcase : new.inBody with
    | false => rfl
    | true =>
        rcases hbody hcase with hold | hnot
        · rw [h.pending hdone old (List.mem_of_getElem? hc)] at hold
          cases hold
        · rw [hdone] at hnot
          cases hnot
  · intro call hcall
    obtain ⟨d, hd⟩ := List.mem_iff_getElem?.mp hcall
    rw [getElem?_set_eq hc] at hd
    split at hd
    next =>
      obtain rfl := Option.some.inj hd
      exact hnew
    next hne =>
      have hout := h.once.excludes hc hd (Ne.symm hne) hold
      cases hcase : call.inBody with
      | false => rfl
      | true =>
          rw [Call.holdsOnce_of_inBody hcase] at hout
          cases hout

/-- **Every step preserves the invariant.** -/
theorem step (h : Invariant teardown data s)
    (hstep : Step teardown s a t) : Invariant teardown data t := by
  cases hstep with
  | visit m => exact h.begin rfl rfl rfl rfl
  | close => exact h.begin rfl rfl rfl rfl
  | move c old new g effect hc hmove =>
      refine
        { mu := h.mu.passes hc hmove.passesMu
          once := h.once.passes hc hmove.passesOnce
          flag := h.flag_move hc hmove
          pending := h.pending_move hc hmove
          linearizes := h.linearizes.move hc (hmove.takesEffect s.order)
            hmove.hasReturned
          legal := ?_ }
      have hopen : old = .close .closing → s.gate.closed = false :=
        fun hold => h.open_of_closing (hold ▸ hc)
      rcases hmove.takes h.closed_of_done hopen with
        ⟨rfl, hclosed, hdata⟩ | ⟨e, rfl, htakes⟩
      · rw [Option.map_none, Option.toList_none, List.append_nil]
        show Legal _ _ _ (g.closed, g.data)
        rw [hclosed, hdata]
        exact h.legal
      · rw [List.map_append]
        exact h.legal.concat htakes

theorem of_reaches {data : δ} {s : State μ δ}
    (hs : Reaches (Step teardown) (.initial data) s) :
    Invariant teardown data s :=
  hs.invariant (fun _ _ _ h hstep => h.step hstep)
    (invariant_initial teardown data)

end Invariant

/-! ## What the order says -/

/-- A gate is shut by the first `close`, which tears down. -/
theorem Takes.shut {data : δ} {effects : List (Effect μ)} {b : Bool} {d : δ}
    (h : Legal (Takes teardown) (false, data) effects (b, d)) :
    (b = true ↔ .closed ∈ effects) ∧
      d = if b then teardown data else data := by
  generalize hend : (b, d) = state at h
  induction h generalizing b d with
  | nil =>
      obtain ⟨rfl, rfl⟩ := Prod.mk.inj hend
      simp
  | concat hlegal htakes ih =>
      cases htakes with
      | visited closed data' m =>
          obtain ⟨rfl, rfl⟩ := Prod.mk.inj hend
          obtain ⟨hshut, hdata⟩ := ih rfl
          exact ⟨by simpa using hshut, hdata⟩
      | closes data' =>
          obtain ⟨rfl, rfl⟩ := Prod.mk.inj hend
          obtain ⟨-, hdata⟩ := ih rfl
          exact ⟨by simp, congrArg teardown hdata⟩
      | closesAgain data' =>
          obtain ⟨rfl, rfl⟩ := Prod.mk.inj hend
          obtain ⟨-, hdata⟩ := ih rfl
          exact ⟨by simp, hdata⟩

/-- What holds of the object in every reachable state. -/
structure Gated (teardown : δ → δ) (data : δ) (s : State μ δ) : Prop where
  /-- The order lists, once, every method that has read the flag and every
  `close` past its body, and respects the history of all calls. -/
  linearizes : Linearizes Call.effect Call.hasReturned s.calls s.order
    s.history
  legal : Legal (Takes teardown) (false, data) (s.order.map Prod.snd)
    (s.gate.closed, s.gate.data)
  /-- The teardown has run once if the flag is set, and otherwise not. -/
  data_eq : s.gate.data = if s.gate.closed then teardown data else data
  /-- A method that begins after a `close` has returned is refused. -/
  refused : ∀ a b m sawClosed, Before s.history (.respond a) (.invoke b) →
    s.calls[a]? = some (.close .returned) →
    s.calls[b]? = some (.visit m (.returned sawClosed)) → sawClosed = true
  /-- A method is refused after some `close` only. -/
  passed : ∀ b m, s.calls[b]? = some (.visit m (.returned true)) →
    ∃ a, (a, .closed) ∈ s.order ∧ Before (s.order.map Prod.fst) a b

namespace Invariant

variable {data : δ} {s : State μ δ}

/-- The place of a method in the order, and what it saw there. -/
theorem visited_split (h : Invariant teardown data s) {b : Nat} {m : μ}
    {sawClosed : Bool} (hb : (b, .visited m sawClosed) ∈ s.order) :
    ∃ before after, s.order = before ++ (b, .visited m sawClosed) :: after ∧
      (sawClosed = true ↔ .closed ∈ before.map Prod.snd) := by
  obtain ⟨before, after, horder⟩ := List.append_of_mem hb
  have hlegal := h.legal
  rw [horder, List.map_append, List.map_cons] at hlegal
  obtain ⟨⟨closed, d⟩, _, hbefore, htakes⟩ := hlegal.split_cons
  refine ⟨before, after, horder, ?_⟩
  cases htakes with
  | visited => exact (Takes.shut hbefore).1

theorem refused (h : Invariant teardown data s) {a b : Nat} {m : μ}
    {sawClosed : Bool}
    (hbefore : Before s.history (.respond a) (.invoke b))
    (ha : s.calls[a]? = some (.close .returned))
    (hb : s.calls[b]? = some (.visit m (.returned sawClosed))) :
    sawClosed = true := by
  have hrecords := h.linearizes.effects
  have hclose : (a, .closed) ∈ s.order :=
    (hrecords.mem_iff_result ha).mpr rfl
  have hvisit : (b, .visited m sawClosed) ∈ s.order :=
    (hrecords.mem_iff_result hb).mpr rfl
  have horder := h.linearizes.realTime a (List.mem_map_of_mem hclose) b
    (List.mem_map_of_mem hvisit) hbefore
  obtain ⟨before, after, hsplit, hsaw⟩ := h.visited_split hvisit
  have hnodup := hrecords.nodup
  rw [hsplit, List.map_append, List.map_cons] at horder hnodup
  obtain ⟨⟨a', e⟩, hmem, rfl⟩ := List.mem_map.mp (horder.mem_left hnodup)
  have hentry : (a', e) ∈ s.order := by
    rw [hsplit]
    exact List.mem_append_left _ hmem
  obtain rfl : Effect.closed = e :=
    Option.some.inj ((hrecords.mem_iff_result ha).mp hentry)
  exact hsaw.mpr (List.mem_map_of_mem hmem)

theorem passed (h : Invariant teardown data s) {b : Nat} {m : μ}
    (hb : s.calls[b]? = some (.visit m (.returned true))) :
    ∃ a, (a, .closed) ∈ s.order ∧ Before (s.order.map Prod.fst) a b := by
  have hvisit : (b, .visited m true) ∈ s.order :=
    (h.linearizes.effects.mem_iff_result hb).mpr rfl
  obtain ⟨before, after, hsplit, hsaw⟩ := h.visited_split hvisit
  obtain ⟨⟨a, e⟩, hmem, rfl⟩ := List.mem_map.mp (hsaw.mp rfl)
  refine ⟨a, ?_, ?_⟩
  · rw [hsplit]
    exact List.mem_append_left _ hmem
  · rw [hsplit, List.map_append, List.map_cons]
    exact Before.of_mem_left
      (List.mem_map_of_mem (f := Prod.fst) hmem) _ _

end Invariant

/-- **The calls are those of the sequential gate.** -/
theorem gate_linearizable {data : δ} {s : State μ δ}
    (hs : Reaches (Step teardown) (.initial data) s) :
    Gated teardown data s := by
  have h := Invariant.of_reaches hs
  exact
    { linearizes := h.linearizes
      legal := h.legal
      data_eq := (Takes.shut h.legal).2
      refused := fun _ _ _ _ => h.refused
      passed := fun _ _ => h.passed }

/-! ## Every call returns -/

/-- A step of a call that has begun. -/
def OwnStep (teardown : δ → δ) (s : State μ δ) (a : Action μ)
    (t : State μ δ) : Prop :=
  Step teardown s a t ∧ ∃ c, a = .move c

def Call.rank : Call μ → Nat
  | .visit _ .locking => 3
  | .visit _ .reading => 2
  | .visit _ (.leaving _) => 1
  | .visit _ (.returned _) => 0
  | .close .once => 6
  | .close .slow => 5
  | .close .entered => 4
  | .close .locking => 3
  | .close .closing => 2
  | .close .leaving => 1
  | .close .returned => 0

theorem Moves.rank_lt {g g' : Gate δ} {c : Nat} {old new : Call μ}
    {effect : Option (Effect μ)}
    (h : Moves teardown g c old new g' effect) : new.rank < old.rank := by
  cases h with
  | _ => simp [Call.rank]

def State.rank (s : State μ δ) : Nat := (s.calls.map Call.rank).sum

theorem rank_ownStep {s t : State μ δ} {a : Action μ}
    (h : OwnStep teardown s a t) : t.rank < s.rank := by
  obtain ⟨hstep, c, rfl⟩ := h
  cases hstep with
  | move _ old new gate effect hc hmove =>
      have hlower := hmove.rank_lt
      have hsum := sum_map_set Call.rank hc new
      show ((s.calls.set c new).map Call.rank).sum < s.rank
      rw [State.rank]
      omega

namespace Invariant

variable {data : δ} {s : State μ δ}

theorem exists_holder {holds : Call μ → Bool} {owner : Option Nat} {c : Nat}
    (h : OwnedBy holds s.calls owner) (howner : owner = some c) :
    ∃ call, s.calls[c]? = some call ∧ holds call = true := by
  have hholds := (h c).mpr howner
  rw [List.getElem?_map, Option.map_eq_some_iff] at hholds
  exact hholds

/-- **Where no call can move, every call has returned.** -/
theorem returned_of_stuck (h : Invariant teardown data s)
    (hstuck : ∀ a t, ¬ OwnStep teardown s a t) :
    ∀ call ∈ s.calls, call.hasReturned = true := by
  have hnot : ∀ {c : Nat} {old new : Call μ} {g : Gate δ} {effect},
      s.calls[c]? = some old → ¬ Moves teardown s.gate c old new g effect :=
    fun {c old new g effect} hc hmove =>
      hstuck _ _ ⟨.move s c old new g effect hc hmove, c, rfl⟩
  -- whoever holds a mutex can go on, so both are free
  have hmu : s.gate.mu = none := by
    cases howner : s.gate.mu with
    | none => rfl
    | some c =>
        obtain ⟨call, hc, hholds⟩ := exists_holder h.mu howner
        match call with
        | .visit m .reading => exact absurd (.reads m) (hnot hc)
        | .close .closing => exact absurd .closes (hnot hc)
  have honce : s.gate.onceMutex = none := by
    cases howner : s.gate.onceMutex with
    | none => rfl
    | some c =>
        obtain ⟨call, hc, hholds⟩ := exists_holder h.once howner
        match call with
        | .close .entered =>
            cases hdone : s.gate.onceDone with
            | true => exact absurd (.finds hdone) (hnot hc)
            | false => exact absurd (.begins hdone) (hnot hc)
        | .close .locking => exact absurd (.locksToClose hmu) (hnot hc)
        | .close .closing => exact absurd .closes (hnot hc)
        | .close .leaving => exact absurd .leaves (hnot hc)
  intro call hcall
  obtain ⟨c, hc⟩ := List.mem_iff_getElem?.mp hcall
  match call with
  | .visit m .locking => exact absurd (.locks m hmu) (hnot hc)
  | .visit m .reading => exact absurd (.reads m) (hnot hc)
  | .visit m (.leaving sawClosed) =>
      exact absurd (.returns m sawClosed) (hnot hc)
  | .visit _ (.returned _) => rfl
  | .close .once =>
      cases hdone : s.gate.onceDone with
      | true => exact absurd (.skips hdone) (hnot hc)
      | false => exact absurd (.misses hdone) (hnot hc)
  | .close .slow => exact absurd (.enters honce) (hnot hc)
  | .close .entered =>
      cases hdone : s.gate.onceDone with
      | true => exact absurd (.finds hdone) (hnot hc)
      | false => exact absurd (.begins hdone) (hnot hc)
  | .close .locking => exact absurd (.locksToClose hmu) (hnot hc)
  | .close .closing => exact absurd .closes (hnot hc)
  | .close .leaving => exact absurd .leaves (hnot hc)
  | .close .returned => rfl

end Invariant

/-- **Every call returns**, in every schedule. -/
theorem calls_end {data : δ} {s : State μ δ}
    (hs : Reaches (Step teardown) (.initial data) s) :
    Inevitable (OwnStep teardown)
      (fun t => ∀ call ∈ t.calls, call.hasReturned = true) s := by
  refine .of_rank (I := fun t => Reaches (Step teardown) (.initial data) t)
    State.rank (fun _ _ _ hreach hstep => hreach.tail hstep.1)
    (fun _ _ _ _ hstep => rank_ownStep hstep) (fun t hreach hrest => ?_) hs
  by_contra hnone
  push Not at hnone
  exact hrest ((Invariant.of_reaches hreach).returned_of_stuck hnone)

end GoPrep.Verified.OnceGate
