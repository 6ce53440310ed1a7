import GoPrep.Ports.BlockingQueueWaiters
import GoPrep.Verified.Inevitable

/-!
# The blocking queue settles

When no further call begins and nobody wakes spuriously, the calls on the
queue come to rest: those that can be served are, and the others sleep.  How
many that is depends on the numbers of calls only, not on the schedule.  A
queue of capacity zero serves nobody.

A finishing call wakes every sleeper, each of which may look and sleep again.
That a call finishes only once pays for it.

## Main results

* `rank_ownStep` — every step of a call lowers the rank.
* `queue_settles` — from every reachable state the calls come to rest, the
  mutex free, with as many writers and readers served as the numbers allow.
-/

namespace GoPrep.Ports.BlockingQueue

open GoPrep.Verified.ThreadTable
open GoPrep.Verified.Transition

variable {Element : Type}

/-- A step of a call already begun, not woken spuriously. -/
def OwnStep (s : State Element) (a : Action Element) (t : State Element) :
    Prop :=
  Step s a t ∧ (∀ op, a ≠ .begin op) ∧ ∀ c, a ≠ .wakeSpuriously c

/-! ## The rank -/

/-- A bound on the steps of a call, one of `count`, and of those it wakes. -/
def Call.rank (count : Nat) (call : Call Element) : Nat :=
  match call.pc with
  | .start => 2 * count + 3
  | .locked => 2 * count + 2
  | .asleep => 2 * count + 1
  | .notified => 2 * count + 3
  | .returned _ => 0
  | .panicked _ => 0

def State.rank (s : State Element) : Nat :=
  (s.calls.map (Call.rank s.calls.length)).sum

theorem Call.rank_wake (count : Nat) (call : Call Element) :
    call.wake.rank count ≤ call.rank count + 2 := by
  obtain ⟨op, pc⟩ := call
  cases pc <;> simp [Call.wake, Call.rank]

/-- A call that moves without waking anybody. -/
theorem rank_goto {s : State Element} {c : Nat} {op : Op Element}
    {old new : Pc Element} (hc : s.calls[c]? = some ⟨op, old⟩)
    (hlower : Call.rank s.calls.length ⟨op, new⟩ <
      Call.rank s.calls.length ⟨op, old⟩) :
    (s.goto c op new).rank < s.rank := by
  have hsum := sum_map_set (Call.rank s.calls.length) hc ⟨op, new⟩
  simp only [State.rank, State.goto, List.length_set]
  omega

/-- A call that finishes pays for the broadcast. -/
theorem rank_finish {s : State Element} {c : Nat} {op : Op Element}
    (hc : s.calls[c]? = some ⟨op, .locked⟩) (result : Option Element) :
    (s.finish c op result).rank < s.rank := by
  have hsum := sum_map_set (Call.rank s.calls.length) hc
    ⟨op, .returned result⟩
  have hwoken := sum_map_map_le (Call.rank s.calls.length)
    (Call.rank_wake s.calls.length) (s.calls.set c ⟨op, .returned result⟩)
  rw [List.length_set] at hwoken
  have hlocked : Call.rank s.calls.length ⟨op, .locked⟩ =
      2 * s.calls.length + 2 := rfl
  have hreturned : Call.rank s.calls.length ⟨op, .returned result⟩ = 0 := rfl
  simp only [State.rank, State.finish, List.length_map, List.length_set]
  omega

theorem rank_ownStep {s t : State Element} {a : Action Element}
    (h : OwnStep s a t) : t.rank < s.rank := by
  obtain ⟨hstep, hbegin, hspurious⟩ := h
  cases hstep with
  | begin op => exact absurd rfl (hbegin op)
  | wakeSpuriously c op _ => exact absurd rfl (hspurious c)
  | lock c op pc hc hpc _ =>
      refine rank_goto hc ?_
      rcases hpc with rfl | rfl <;> simp [Call.rank]
  | wait c op hc _ => exact rank_goto hc (by simp [Call.rank])
  | enqueue c el queue hc _ _ => exact rank_finish hc none
  | enqueuePanic c el reason hc _ _ =>
      exact rank_goto hc (by simp [Call.rank])
  | dequeue c elementRead queue hc _ _ =>
      exact rank_finish hc (some elementRead)
  | dequeuePanic c reason hc _ _ =>
      exact rank_goto hc (by simp [Call.rank])

/-! ## Calls at rest -/

/-- No call can move. -/
def Stuck (s : State Element) : Prop := ∀ a t, ¬ OwnStep s a t

theorem Stuck.no_step {s t : State Element} {a : Action Element}
    (hstuck : Stuck s) (hstep : Step s a t) (hbegin : ∀ op, a ≠ .begin op)
    (hspurious : ∀ c, a ≠ .wakeSpuriously c) : False :=
  hstuck a t ⟨hstep, hbegin, hspurious⟩

/-- Whoever has the mutex can move, so it is free. -/
theorem Stuck.mu_free {s : State Element} {capacity : Nat}
    (hstuck : Stuck s) (h : Invariant capacity s) : s.mu = none := by
  cases hmu : s.mu with
  | none => rfl
  | some c =>
      exfalso
      have hholds := (h.owner c).mpr hmu
      rw [List.getElem?_map, Option.map_eq_some_iff] at hholds
      obtain ⟨⟨op, pc⟩, hc, hholds⟩ := hholds
      obtain rfl : pc = .locked := by
        cases pc <;> first | rfl | cases hholds
      cases hblocks : blocks s.queue op with
      | true =>
          exact hstuck.no_step (.wait s c op hc hblocks) (by simp) (by simp)
      | false =>
          cases op with
          | enqueue el =>
              cases hbody : s.queue.enqueue el with
              | ok queue =>
                  exact hstuck.no_step (.enqueue s c el queue hc hblocks
                    hbody) (by simp) (by simp)
              | error reason =>
                  exact hstuck.no_step (.enqueuePanic s c el reason hc
                    hblocks hbody) (by simp) (by simp)
          | dequeue =>
              cases hbody : s.queue.dequeue with
              | ok read =>
                  obtain ⟨elementRead, queue⟩ := read
                  exact hstuck.no_step (.dequeue s c elementRead queue hc
                    hblocks hbody) (by simp) (by simp)
              | error reason =>
                  exact hstuck.no_step (.dequeuePanic s c reason hc hblocks
                    hbody) (by simp) (by simp)

theorem Stuck.asleep_or_returned {s : State Element} {capacity : Nat}
    (hstuck : Stuck s) (h : Invariant capacity s) {call : Call Element}
    (hcall : call ∈ s.calls) :
    call.pc = .asleep ∨ ∃ result, call.pc = .returned result := by
  obtain ⟨c, hc⟩ := List.mem_iff_getElem?.mp hcall
  have hfree := hstuck.mu_free h
  obtain ⟨op, pc⟩ := call
  cases pc with
  | start =>
      exact (hstuck.no_step (.lock s c op _ hc (.inl rfl) hfree) (by simp)
        (by simp)).elim
  | locked =>
      have howner := h.owner.owner_of_holds hc rfl
      rw [hfree] at howner
      cases howner
  | asleep => exact .inl rfl
  | notified =>
      exact (hstuck.no_step (.lock s c op _ hc (.inr rfl) hfree) (by simp)
        (by simp)).elim
  | returned result => exact .inr ⟨result, rfl⟩
  | panicked reason => exact absurd ⟨reason, rfl⟩ (h.noPanic _ hcall)

/-! ## How many calls are served -/

def Call.isWriter (call : Call Element) : Bool :=
  match call.op with
  | .enqueue _ => true
  | .dequeue => false

def Call.isReader (call : Call Element) : Bool := !call.isWriter

/-- The call has returned. -/
def Call.hasReturned (call : Call Element) : Bool :=
  match call.pc with
  | .returned _ => true
  | _ => false

/-- What the histories do not say: a `Dequeue` returns a value, and a queue
without a slot lets no call return. -/
structure ServesInvariant (capacity : Nat) (s : State Element) : Prop where
  answers : ∀ call ∈ s.calls, call.op = .dequeue →
    call.pc ≠ .returned none
  idle : capacity = 0 → s.enqueued = [] ∧ s.dequeued = []

theorem servesInvariant_initial (capacity : Nat) (q : BoundedQueue Element) :
    ServesInvariant capacity (State.initial q) :=
  ⟨by simp [State.initial], fun _ => ⟨rfl, rfl⟩⟩

/-- A broadcast answers nobody. -/
theorem Call.pc_wake_ne (call : Call Element) (result : Option Element)
    (h : call.pc ≠ .returned result) : call.wake.pc ≠ .returned result := by
  obtain ⟨op, pc⟩ := call
  cases pc with
  | asleep => exact fun hpc => by cases hpc
  | _ => exact h

theorem Call.op_wake (call : Call Element) : call.wake.op = call.op := by
  obtain ⟨op, pc⟩ := call
  cases pc <;> rfl

namespace ServesInvariant

variable {capacity : Nat} {s : State Element}

theorem set (h : ServesInvariant capacity s) {new : Call Element} (c : Nat)
    (hnew : new.op = .dequeue → new.pc ≠ .returned none) :
    ∀ call ∈ s.calls.set c new, call.op = .dequeue →
      call.pc ≠ .returned none :=
  forall_mem_set h.answers hnew

theorem finish (h : ServesInvariant capacity s) {c : Nat} {op : Op Element}
    {result : Option Element} (hresult : op = .dequeue → result ≠ none) :
    ∀ call ∈ (s.finish c op result).calls, call.op = .dequeue →
      call.pc ≠ .returned none := by
  refine forall_mem_map (h.set c fun hop hpc => ?_) fun call hcall hop => ?_
  · exact hresult hop (Pc.returned.inj hpc)
  · exact call.pc_wake_ne none (hcall (call.op_wake ▸ hop))

theorem step (h : ServesInvariant capacity s) (hinv : Invariant capacity s)
    {a : Action Element} {t : State Element} (hstep : Step s a t) :
    ServesInvariant capacity t := by
  obtain ⟨contents, hmax, ⟨start, hrep⟩, -, -⟩ := hinv.holds
  have hbounds := hrep.count_bounds
  cases hstep with
  | begin op =>
      exact ⟨forall_mem_concat h.answers (fun _ hpc => by cases hpc), h.idle⟩
  | lock c op pc _ _ _ => exact ⟨h.set c (fun _ hpc => by cases hpc), h.idle⟩
  | wait c op _ _ => exact ⟨h.set c (fun _ hpc => by cases hpc), h.idle⟩
  | wakeSpuriously c op _ =>
      exact ⟨h.set c (fun _ hpc => by cases hpc), h.idle⟩
  | enqueue c el queue _ hroom _ =>
      refine ⟨h.finish (fun hop => by cases hop), fun hzero => ?_⟩
      have hlt := of_decide_eq_false hroom
      omega
  | enqueuePanic c el reason _ _ _ =>
      exact ⟨h.set c (fun hop => by cases hop), h.idle⟩
  | dequeue c elementRead queue _ hsome _ =>
      refine ⟨h.finish (fun _ hnone => by cases hnone), fun hzero => ?_⟩
      have hne := of_decide_eq_false hsome
      omega
  | dequeuePanic c reason _ _ _ =>
      exact ⟨h.set c (fun _ hpc => by cases hpc), h.idle⟩

end ServesInvariant

/-- The writers that a queue of the capacity serves, of all it is called
by. -/
def writersServed (capacity writers readers : Nat) : Nat :=
  if capacity = 0 then 0 else min writers (readers + capacity)

def readersServed (capacity writers readers : Nat) : Nat :=
  if capacity = 0 then 0 else min readers writers

/-- The mutex is free, every call has returned or sleeps, and as many have
returned as the numbers of calls allow. -/
structure Settled (capacity : Nat) (s : State Element) : Prop where
  mu_free : s.mu = none
  rest : ∀ call ∈ s.calls, call.pc = .asleep ∨ call.hasReturned = true
  writers : s.calls.countP (fun call => call.isWriter && call.hasReturned) =
    writersServed capacity (s.calls.countP Call.isWriter)
      (s.calls.countP Call.isReader)
  readers : s.calls.countP (fun call => call.isReader && call.hasReturned) =
    readersServed capacity (s.calls.countP Call.isWriter)
      (s.calls.countP Call.isReader)

/-- The calls of a kind are those that have returned and those that have
not. -/
theorem countP_hasReturned (p : Call Element → Bool)
    (calls : List (Call Element)) :
    calls.countP p = calls.countP (fun call => p call && call.hasReturned) +
      calls.countP fun call => p call && !call.hasReturned := by
  induction calls with
  | nil => rfl
  | cons call calls ih =>
      rw [List.countP_cons, List.countP_cons, List.countP_cons, ih]
      cases p call <;> cases call.hasReturned <;> simp <;> omega

namespace Invariant

variable {capacity : Nat} {s : State Element}

theorem enqueued_length (h : Invariant capacity s) : s.enqueued.length =
    s.calls.countP fun call => call.isWriter && call.hasReturned := by
  rw [h.stored.length_eq]
  congr 1
  funext ⟨op, pc⟩
  cases op <;> cases pc <;> rfl

theorem dequeued_length (h : Invariant capacity s)
    (hserves : ServesInvariant capacity s) : s.dequeued.length =
    s.calls.countP fun call => call.isReader && call.hasReturned := by
  rw [h.answered.length_eq]
  refine List.countP_congr fun ⟨op, pc⟩ hcall => ?_
  cases op with
  | enqueue el => cases pc <;> exact Iff.rfl
  | dequeue =>
      have hanswer := hserves.answers _ hcall rfl
      cases pc with
      | returned result =>
          cases result with
          | none => exact absurd rfl hanswer
          | some el => exact Iff.rfl
      | _ => exact Iff.rfl

end Invariant

/-- **Calls that cannot move are served as far as their numbers allow.** -/
theorem Stuck.settled {capacity : Nat} {s : State Element}
    (hstuck : Stuck s) (h : Invariant capacity s)
    (hserves : ServesInvariant capacity s) (hblocked : SleepersBlocked s) :
    Settled capacity s := by
  have hrest : ∀ call ∈ s.calls,
      call.pc = .asleep ∨ call.hasReturned = true := by
    intro call hcall
    refine (hstuck.asleep_or_returned h hcall).imp_right ?_
    rintro ⟨result, hpc⟩
    rw [Call.hasReturned, hpc]
  have hasleep : ∀ {p : Call Element → Bool},
      0 < s.calls.countP (fun call => p call && !call.hasReturned) →
      ∃ call ∈ s.calls, p call = true ∧ blocks s.queue call.op = true := by
    intro p hpos
    obtain ⟨call, hcall, hp⟩ := List.countP_pos_iff.mp hpos
    rw [Bool.and_eq_true, Bool.not_eq_true'] at hp
    rcases hrest call hcall with hpc | hreturned
    · exact ⟨call, hcall, hp.1, hblocked call hcall hpc⟩
    · rw [hp.2] at hreturned
      cases hreturned
  obtain ⟨contents, hmax, ⟨start, hrep⟩, -, hlog⟩ := h.holds
  have hbounds := hrep.count_bounds
  have hcount := hrep.count_eq
  -- A writer sleeps only on a full queue, a reader only on an empty one.
  have hwriters : 0 < s.calls.countP
      (fun call => call.isWriter && !call.hasReturned) →
      s.queue.count ≥ s.queue.maxCapacity := by
    intro hpos
    obtain ⟨⟨op, pc⟩, -, hwriter, hblocks⟩ := hasleep hpos
    cases op with
    | enqueue el => exact of_decide_eq_true hblocks
    | dequeue => cases hwriter
  have hreaders : 0 < s.calls.countP
      (fun call => call.isReader && !call.hasReturned) →
      s.queue.count = 0 := by
    intro hpos
    obtain ⟨⟨op, pc⟩, -, hreader, hblocks⟩ := hasleep hpos
    cases op with
    | enqueue el => cases hreader
    | dequeue => exact of_decide_eq_true hblocks
  have hsplit := countP_hasReturned Call.isWriter s.calls
  have hsplit' := countP_hasReturned Call.isReader s.calls
  have hstored := h.enqueued_length
  have hanswered := h.dequeued_length hserves
  have hlength := congrArg List.length hlog
  rw [List.length_append, List.length_map, List.length_map] at hlength
  refine ⟨hstuck.mu_free h, hrest, ?_, ?_⟩
  · rw [writersServed]
    split
    next hzero =>
      rw [← hstored, (hserves.idle hzero).1, List.length_nil]
    next => omega
  · rw [readersServed]
    split
    next hzero =>
      rw [← hanswered, (hserves.idle hzero).2, List.length_nil]
    next => omega

/-- **The queue always settles, and the schedule does not matter.**  For
every capacity, from every reachable state: the calls begun come to rest, and
which numbers of them are served is fixed by how many there are. -/
theorem queue_settles [Inhabited Element] {capacity : Int}
    (hcapacity : 0 ≤ capacity) {q : BoundedQueue Element}
    (hnew : newBoundedQueue capacity = .ok q) {s : State Element}
    (hs : Reaches Step (State.initial q) s) :
    Inevitable OwnStep (Settled capacity.toNat) s := by
  obtain ⟨n, rfl⟩ := Int.eq_ofNat_of_zero_le hcapacity
  rw [Int.toNat_natCast]
  refine .of_rank (I := fun t => Reaches Step (State.initial q) t)
    State.rank (fun _ _ _ hreach hstep => hreach.tail hstep.1)
    (fun _ _ _ _ hstep => rank_ownStep hstep) (fun t hreach hrest => ?_) hs
  by_contra hnone
  push Not at hnone
  have hinv := fun {u} (hu : Reaches Step (State.initial q) u) =>
    Invariant.of_reaches hnew hu
  have hserves : ServesInvariant n t := by
    have hboth : Invariant n t ∧ ServesInvariant n t := by
      refine hreach.invariant
        (I := fun u => Invariant n u ∧ ServesInvariant n u) ?_
        ⟨hinv .refl, servesInvariant_initial n q⟩
      rintro u a v ⟨hu, hserve⟩ hstep
      exact ⟨hu.step hstep, hserve.step hu hstep⟩
    exact hboth.2
  have hblocked : SleepersBlocked t :=
    hreach.invariant (fun _ _ _ h hstep => sleepersBlocked_step h hstep)
      (sleepersBlocked_initial q)
  have hstuck : Stuck t := hnone
  exact hrest (hstuck.settled (hinv hreach) hserves hblocked)

/-- One slot, three writers, one of them asleep, and a reader: in every
schedule from here two writers and the reader are served. -/
theorem queue_settles_four :
    ∃ (q : BoundedQueue Nat) (s : State Nat), newBoundedQueue 1 = .ok q ∧
      Reaches Step (State.initial q) s ∧
      s.calls = [⟨.enqueue 7, .returned none⟩, ⟨.enqueue 8, .asleep⟩,
        ⟨.enqueue 9, .start⟩, ⟨.dequeue, .start⟩] ∧
      Inevitable OwnStep (Settled 1) s := by
  have hnew : newBoundedQueue 1 =
      .ok (⟨[0], 0, 0, 0, 1⟩ : BoundedQueue Nat) := rfl
  have hcalls := ((Reaches.single
    (Step.begin (State.initial ⟨[(0 : Nat)], 0, 0, 0, 1⟩) (.enqueue 7))).tail
    (.begin _ (.enqueue 8))).tail (.begin _ (.enqueue 9))
  have hput := ((hcalls.tail (.begin _ .dequeue)).tail
    (.lock _ 0 _ _ rfl (.inl rfl) rfl)).tail
    (.enqueue _ 0 7 ⟨[7], 0, 0, 1, 1⟩ rfl rfl rfl)
  have hasleep := (hput.tail (.lock _ 1 _ _ rfl (.inl rfl) rfl)).tail
    (.wait _ 1 _ rfl rfl)
  exact ⟨_, _, hnew, hasleep, rfl, queue_settles (by decide) hnew hasleep⟩

end GoPrep.Ports.BlockingQueue
