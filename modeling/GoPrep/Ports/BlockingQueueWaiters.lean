import GoPrep.Ports.BlockingQueue

/-!
# No waiter of the blocking queue is stranded

Writers of a full queue and readers of an empty one sleep on one condition
variable.  Every `Enqueue` and `Dequeue` broadcasts in the critical section in
which it changes the queue, so a call that is still asleep has gone to sleep,
or back to sleep, since the last change: what its loop found then is true now.

## Main results

* `sleepersBlocked_step` — whoever sleeps is blocked by the queue as it is.
* `no_waiter_stranded` — a sleeping `Enqueue` means a full queue and a sleeping
  `Dequeue` an empty one; a call that waits although it could proceed has been
  notified.
-/

namespace GoPrep.Ports.BlockingQueue

open GoPrep.Verified.ThreadTable
open GoPrep.Verified.Transition

variable {Element : Type}

/-- The loop condition of a sleeping call is still true. -/
def SleepersBlocked (s : State Element) : Prop :=
  ∀ call ∈ s.calls, call.pc = .asleep → blocks s.queue call.op = true

theorem sleepersBlocked_initial (q : BoundedQueue Element) :
    SleepersBlocked (State.initial q) := by
  simp [SleepersBlocked, State.initial]

theorem Call.wake_pc_ne_asleep (call : Call Element) :
    call.wake.pc ≠ .asleep := by
  obtain ⟨op, pc⟩ := call
  cases pc <;> simp [Call.wake]

/-- After a broadcast nobody sleeps. -/
theorem not_asleep_finish {s : State Element} {c : Nat} {op : Op Element}
    {result : Option Element} :
    ∀ call ∈ (s.finish c op result).calls, call.pc ≠ .asleep := by
  intro call hcall
  obtain ⟨old, -, rfl⟩ := List.mem_map.mp hcall
  exact old.wake_pc_ne_asleep

/-- **Every step leaves only blocked calls asleep.** -/
theorem sleepersBlocked_step {s t : State Element} {a : Action Element}
    (h : SleepersBlocked s) (hstep : Step s a t) : SleepersBlocked t := by
  cases hstep with
  | begin op =>
      exact forall_mem_concat h fun hasleep => by cases hasleep
  | lock c op pc _ _ _ =>
      exact forall_mem_set h fun hasleep => by cases hasleep
  | wait c op _ hblocks => exact forall_mem_set h fun _ => hblocks
  | wakeSpuriously c op _ =>
      exact forall_mem_set h fun hasleep => by cases hasleep
  | enqueue c el queue _ _ _ =>
      intro call hcall hasleep
      exact absurd hasleep (not_asleep_finish call hcall)
  | enqueuePanic c el reason _ _ _ =>
      exact forall_mem_set h fun hasleep => by cases hasleep
  | dequeue c elementRead queue _ _ _ =>
      intro call hcall hasleep
      exact absurd hasleep (not_asleep_finish call hcall)
  | dequeuePanic c reason _ _ _ =>
      exact forall_mem_set h fun hasleep => by cases hasleep

/-- The call is inside `Wait`, asleep or about to take the mutex again. -/
def Call.isWaiting (call : Call Element) : Prop :=
  call.pc = .asleep ∨ call.pc = .notified

structure NoneStranded (s : State Element) : Prop where
  enqueuer : ∀ el, ⟨.enqueue el, .asleep⟩ ∈ s.calls →
    s.queue.count = s.queue.maxCapacity
  dequeuer : ⟨.dequeue, .asleep⟩ ∈ s.calls → s.queue.count = 0
  /-- Writers and readers are never asleep together. -/
  notBoth : ∀ el, ⟨.enqueue el, .asleep⟩ ∈ s.calls →
    ⟨.dequeue, .asleep⟩ ∉ s.calls
  /-- A call that waits although it could proceed has been woken. -/
  pending : ∀ call ∈ s.calls, call.isWaiting →
    blocks s.queue call.op = false → call.pc = .notified

/-- **No waiter is stranded.**  For every capacity of at least one and every
interleaving of `Enqueue` and `Dequeue` calls, with spurious wake-ups: a call
asleep in `Enqueue` implies a full queue, a call asleep in `Dequeue` an empty
one, so there are never both, and a call that waits although its operation is
possible has already been notified. -/
theorem no_waiter_stranded [Inhabited Element] {capacity : Int}
    (hcapacity : 1 ≤ capacity) {q : BoundedQueue Element}
    (hnew : newBoundedQueue capacity = .ok q) {s : State Element}
    (hs : Reaches Step (State.initial q) s) : NoneStranded s := by
  obtain ⟨n, rfl⟩ := Int.eq_ofNat_of_zero_le (show 0 ≤ capacity by omega)
  obtain ⟨contents, hmax, ⟨start, hrep⟩, -, -⟩ :=
    (Invariant.of_reaches hnew hs).holds
  have hbounds := hrep.count_bounds
  have hblocked : SleepersBlocked s :=
    hs.invariant (fun _ _ _ h hstep => sleepersBlocked_step h hstep)
      (sleepersBlocked_initial q)
  have henqueuer : ∀ el, ⟨.enqueue el, .asleep⟩ ∈ s.calls →
      s.queue.count = s.queue.maxCapacity := by
    intro el hmem
    have hfull := of_decide_eq_true (hblocked _ hmem rfl)
    omega
  have hdequeuer : ⟨.dequeue, .asleep⟩ ∈ s.calls → s.queue.count = 0 := by
    intro hmem
    exact of_decide_eq_true (hblocked _ hmem rfl)
  refine ⟨henqueuer, hdequeuer, ?_, ?_⟩
  · intro el hwriter hreader
    have hfull := henqueuer el hwriter
    have hempty := hdequeuer hreader
    omega
  · intro call hcall hwaits hproceeds
    rcases hwaits with hasleep | hnotified
    · have hblocks := hblocked call hcall hasleep
      rw [hproceeds] at hblocks
      cases hblocks
    · exact hnotified

/-- A reader that sleeps on an empty queue is woken by the next write. -/
theorem no_waiter_stranded_reader :
    ∃ (q : BoundedQueue Nat) (s : State Nat), newBoundedQueue 1 = .ok q ∧
      Reaches Step (State.initial q) s ∧
      s.calls = [⟨.dequeue, .notified⟩, ⟨.enqueue 7, .returned none⟩] ∧
      NoneStranded s := by
  have hnew : newBoundedQueue 1 =
      .ok (⟨[0], 0, 0, 0, 1⟩ : BoundedQueue Nat) := rfl
  have hcall := Reaches.single
    (Step.begin (State.initial ⟨[(0 : Nat)], 0, 0, 0, 1⟩) .dequeue)
  have hasleep := (hcall.tail (Step.lock _ 0 _ _ rfl (.inl rfl) rfl)).tail
    (Step.wait _ 0 _ rfl rfl)
  have hput := ((hasleep.tail (Step.begin _ (.enqueue 7))).tail
    (Step.lock _ 1 _ _ rfl (.inl rfl) rfl)).tail
    (Step.enqueue _ 1 7 ⟨[7], 0, 0, 1, 1⟩ rfl rfl rfl)
  exact ⟨_, _, hnew, hput, rfl, no_waiter_stranded (by decide) hnew hput⟩

end GoPrep.Ports.BlockingQueue
