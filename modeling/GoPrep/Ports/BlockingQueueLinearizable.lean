import GoPrep.Ports.BlockingQueueSettles
import GoPrep.Verified.Linearization

/-!
# The blocking queue is linearizable

The refinement of a FIFO queue speaks of the values stored and read.  A client
sees calls: when they begin, when they return, and with what.  A call takes
effect when it leaves its waiting loop, inside the mutex and before its
return, so the calls that have returned are those of a sequential queue, in an
order that no client can tell from real time.

## Main results

* `finishes` — a call that finishes takes effect and responds.
* `LinearizableInvariant.step` — the order of the effects, in all
  interleavings.
* `queue_linearizable` — whatever a client records of a run, the calls have
  been those of a bounded FIFO queue.
-/

namespace GoPrep.Ports.BlockingQueue

open GoPrep.Verified.Linearization
open GoPrep.Verified.RealTime
open GoPrep.Verified.Ring
open GoPrep.Verified.ThreadTable
open GoPrep.Verified.Transition

variable {Element : Type}

/-- What a call that has returned did to the queue. -/
def Call.effect (call : Call Element) : Option (FifoAction Element) :=
  match call.op, call.pc with
  | .enqueue el, .returned _ => some (.put el)
  | .dequeue, .returned (some el) => some (.get el)
  | _, _ => none

/-- What is seen of a step: an invocation, or an effect and a response. -/
def State.observe (s : State Element) :
    Action Element → List (Observation (FifoAction Element))
  | .begin _ => [.inr (.invoke s.calls.length)]
  | .finish c =>
      match (s.calls[c]?).map Call.op with
      | some (.enqueue el) => [.inl (c, .put el), .inr (.respond c)]
      | some .dequeue =>
          match s.queue.dequeue with
          | .ok (elementRead, _) =>
              [.inl (c, .get elementRead), .inr (.respond c)]
          | .error _ => []
      | none => []
  | .lock _ | .wait _ | .wakeSpuriously _ => []

@[simp] theorem Call.effect_wake (call : Call Element) :
    call.wake.effect = call.effect := by
  obtain ⟨op, pc⟩ := call
  cases op <;> cases pc <;> rfl

@[simp] theorem Call.hasReturned_wake (call : Call Element) :
    call.wake.hasReturned = call.hasReturned := by
  obtain ⟨op, pc⟩ := call
  cases pc <;> rfl

/-- The recorded calls are those of a queue that now holds `contents`. -/
structure LinearizableInvariant (capacity : Nat)
    (p : State Element × List (Observation (FifoAction Element))) : Prop where
  queue : Invariant capacity p.1
  linearizes : Linearizes Call.effect Call.hasReturned p.1.calls
    (orderOf p.2) (historyOf p.2)
  legal : ∃ start contents, Represents p.1.queue start contents ∧
    Legal (FifoStep capacity) [] ((orderOf p.2).map Prod.snd) contents

/-- **A call that finishes takes effect and responds.** -/
theorem finishes {calls : List (Call Element)}
    {record : List (Observation (FifoAction Element))}
    (h : Linearizes Call.effect Call.hasReturned calls (orderOf record)
      (historyOf record)) {c : Nat} {op : Op Element}
    (hc : calls[c]? = some ⟨op, .locked⟩) {result : Option Element}
    {e : FifoAction Element}
    (heffect : Call.effect ⟨op, .returned result⟩ = some e) :
    Linearizes Call.effect Call.hasReturned
      ((calls.set c ⟨op, .returned result⟩).map Call.wake)
      (orderOf (record ++ [.inl (c, e), .inr (.respond c)]))
      (historyOf (record ++ [.inl (c, e), .inr (.respond c)])) := by
  have hnone : Call.effect ⟨op, .locked⟩ = none := by
    cases op <;> rfl
  have htakes : TakesEffect Call.effect Call.hasReturned c ⟨op, .locked⟩
      ⟨op, .returned result⟩ (orderOf record) (orderOf record ++ [(c, e)]) :=
    .inr ⟨e, hnone, heffect, rfl, rfl⟩
  have hmoved := h.move hc htakes (fun _ => rfl)
  rw [orderOf_append, historyOf_append]
  exact hmoved.congr (map_map_of_eq _ Call.effect_wake _)
    (map_map_of_eq _ Call.hasReturned_wake _)

namespace LinearizableInvariant

variable {capacity : Nat}
  {p q : State Element × List (Observation (FifoAction Element))}

/-- A call that goes on waiting. -/
theorem waits (h : LinearizableInvariant capacity p) {c : Nat}
    {op : Op Element} {old new : Pc Element} {t : State Element}
    (hc : p.1.calls[c]? = some ⟨op, old⟩)
    (hcalls : t.calls = p.1.calls.set c ⟨op, new⟩)
    (hqueue : t.queue = p.1.queue) (hinv : Invariant capacity t)
    (heffect : Call.effect ⟨op, new⟩ = Call.effect ⟨op, old⟩)
    (hreturned : Call.hasReturned ⟨op, new⟩ = Call.hasReturned ⟨op, old⟩) :
    LinearizableInvariant capacity (t, p.2) where
  queue := hinv
  linearizes := by
    rw [hcalls]
    exact h.linearizes.congr (map_set_of_eq _ hc heffect)
      (map_set_of_eq _ hc hreturned)
  legal := by
    rw [hqueue]
    exact h.legal

/-- **Every recorded step preserves the invariant.** -/
theorem step (h : LinearizableInvariant capacity p) {a : Action Element}
    (hstep : Recording Step State.observe p a q) :
    LinearizableInvariant capacity q := by
  obtain ⟨s, record⟩ := p
  obtain ⟨t, record'⟩ := q
  obtain ⟨hstep, hrecord⟩ := hstep
  dsimp only at hstep hrecord
  subst hrecord
  have hinv := h.queue.step hstep
  cases hstep with
  | begin op =>
      refine ⟨hinv, ?_, ?_⟩
      · rw [orderOf_append, historyOf_append]
        show Linearizes _ _ _ (orderOf record ++ []) _
        rw [List.append_nil]
        exact h.linearizes.begin (by cases op <;> rfl) rfl
      · rw [orderOf_append]
        show ∃ start contents, _ ∧
          Legal _ [] ((orderOf record ++ []).map Prod.snd) contents
        rw [List.append_nil]
        exact h.legal
  | lock c op pc hc hpc _ =>
      rw [State.observe, List.append_nil]
      rcases hpc with rfl | rfl <;>
        exact h.waits hc rfl rfl hinv (by cases op <;> rfl) rfl
  | wait c op hc _ =>
      rw [State.observe, List.append_nil]
      exact h.waits hc rfl rfl hinv (by cases op <;> rfl) rfl
  | wakeSpuriously c op hc =>
      rw [State.observe, List.append_nil]
      exact h.waits hc rfl rfl hinv (by cases op <;> rfl) rfl
  | enqueue c el queue hc hroom hbody =>
      have hseen : State.observe s (.finish c) =
          [.inl (c, .put el), .inr (.respond c)] := by
        rw [State.observe, hc]
        rfl
      rw [hseen]
      refine ⟨hinv, finishes h.linearizes hc rfl, ?_⟩
      obtain ⟨start, contents, hrep, hlegal⟩ := h.legal
      obtain ⟨q', hq', -, hrep'⟩ := hrep.enqueue hroom el
      obtain rfl : q' = queue := by simpa [hq'] using hbody
      obtain ⟨_, hmax, -⟩ := h.queue.holds
      have hlt : contents.length < capacity := by
        have hcount := of_decide_eq_false hroom
        rw [hrep.count_eq, hmax] at hcount
        omega
      refine ⟨start, contents ++ [el], hrep', ?_⟩
      rw [orderOf_append, List.map_append]
      exact hlegal.concat (.put hlt)
  | enqueuePanic c el reason _ hroom hbody =>
      exact absurd hbody (h.queue.enqueue_ne_error hroom)
  | dequeue c elementRead queue hc hsome hbody =>
      have hseen : State.observe s (.finish c) =
          [.inl (c, .get elementRead), .inr (.respond c)] := by
        simp only [State.observe, hc, hbody, Option.map_some]
      rw [hseen]
      refine ⟨hinv, finishes h.linearizes hc rfl, ?_⟩
      obtain ⟨start, contents, hrep, hlegal⟩ := h.legal
      obtain ⟨el, rest, q', rfl, hq', -, hrep'⟩ := hrep.dequeue hsome
      obtain ⟨rfl, rfl⟩ : el = elementRead ∧ q' = queue := by
        simpa [hq'] using hbody
      refine ⟨_, rest, hrep', ?_⟩
      rw [orderOf_append, List.map_append]
      exact hlegal.concat .get
  | dequeuePanic c reason _ hsome hbody =>
      exact absurd hbody (h.queue.dequeue_ne_error hsome)

end LinearizableInvariant

/-- **The queue is linearizable.**  For every capacity, every run can be
recorded, and however it was: the calls that have returned, and no others,
stand in one order that respects real time, each with its value; in this order
they are what a FIFO queue of this capacity does, from empty to what the ring
holds now. -/
theorem queue_linearizable [Inhabited Element] {capacity : Int}
    (hcapacity : 0 ≤ capacity) {queue : BoundedQueue Element}
    (hnew : newBoundedQueue capacity = .ok queue) {s : State Element}
    (hs : Reaches Step (State.initial queue) s) :
    (∃ record, Reaches (Recording Step State.observe)
      (State.initial queue, []) (s, record)) ∧
    ∀ record, Reaches (Recording Step State.observe)
        (State.initial queue, []) (s, record) →
      Linearizes Call.effect Call.hasReturned s.calls (orderOf record)
        (historyOf record) ∧
      ∃ contents, Legal (FifoStep capacity.toNat) []
          ((orderOf record).map Prod.snd) contents ∧
        s.queue.liveSlots = contents.map some := by
  obtain ⟨n, rfl⟩ := Int.eq_ofNat_of_zero_le hcapacity
  refine ⟨hs.recording _ [], fun record hrecord => ?_⟩
  obtain ⟨q', hnew', -, hrep⟩ :
      ∃ q' : BoundedQueue Element, newBoundedQueue (n : Int) = .ok q' ∧
        q'.maxCapacity = n ∧ Represents q' 0 [] :=
    newBoundedQueue_represents n hcapacity
  obtain rfl : q' = queue := Except.ok.inj (hnew'.symm.trans hnew)
  have hinitial : LinearizableInvariant n (State.initial q', []) :=
    ⟨Invariant.of_reaches hnew .refl, .nil _ _, 0, [], hrep, .nil⟩
  have hinv : LinearizableInvariant n (s, record) :=
    hrecord.invariant (fun _ _ _ h hstep => h.step hstep) hinitial
  obtain ⟨start, contents, hrep', hlegal⟩ := hinv.legal
  exact ⟨hinv.linearizes, contents, hlegal, hrep'.liveSlots_eq⟩

/-- A reader that began first takes what the writer that began second has
put. -/
theorem queue_linearizable_two :
    ∃ (queue : BoundedQueue Nat) (s : State Nat),
      newBoundedQueue 1 = .ok queue ∧
      Reaches (Recording Step State.observe) (State.initial queue, [])
        (s, [.inr (.invoke 0), .inr (.invoke 1), .inl (1, .put 7),
          .inr (.respond 1), .inl (0, .get 7), .inr (.respond 0)]) ∧
      Linearizes Call.effect Call.hasReturned s.calls
        [(1, .put 7), (0, .get 7)]
        [.invoke 0, .invoke 1, .respond 1, .respond 0] := by
  have hnew : newBoundedQueue 1 =
      .ok (⟨[0], 0, 0, 0, 1⟩ : BoundedQueue Nat) := rfl
  have hstart : Reaches (Recording Step State.observe)
      (State.initial ⟨[(0 : Nat)], 0, 0, 0, 1⟩, [])
      (State.initial ⟨[(0 : Nat)], 0, 0, 0, 1⟩, []) := .refl
  have hasleep := (((hstart.record (.begin _ .dequeue)).record
    (.begin _ (.enqueue 7))).record
    (.lock _ 0 _ _ rfl (.inl rfl) rfl)).record (.wait _ 0 _ rfl rfl)
  have hput := (hasleep.record (.lock _ 1 _ _ rfl (.inl rfl) rfl)).record
    (.enqueue _ 1 7 ⟨[7], 0, 0, 1, 1⟩ rfl rfl rfl)
  have hget := (hput.record (.lock _ 0 _ _ rfl (.inr rfl) rfl)).record
    (.dequeue _ 0 7 ⟨[7], 0, 0, 0, 1⟩ rfl rfl rfl)
  exact ⟨_, _, hnew, hget,
    ((queue_linearizable (by decide) hnew hget.of_recording).2 _ hget).1⟩

end GoPrep.Ports.BlockingQueue
