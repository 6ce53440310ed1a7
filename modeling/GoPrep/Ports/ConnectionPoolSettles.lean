import GoPrep.Ports.ConnectionPoolConserved
import GoPrep.Verified.Inevitable

/-!
# The connection pool comes to rest

The channel of the pool is its only means of waiting: `Acquire` waits in its
`select`, `Release` and `Destroy` in the send after their `default`.  When no
further call begins the sends all find room, and an `Acquire` goes on waiting
only for connections that are borrowed.

## Main results

* `Moves.rank_lt` — the moves of a call are few.
* `Stuck.settled` — what the calls are at rest.
* `connections_settle` — from every state that users who keep to the rules
  reach, in every schedule, the calls come to rest.
-/

namespace GoPrep.Ports.ConnectionPool

open GoPrep.Verified.ThreadTable
open GoPrep.Verified.Transition

/-- A step of a call that has begun. -/
def OwnStep (s : State) (a : Action) (t : State) : Prop :=
  Step s a t ∧ ∃ c, a = .move c

/-- The call is at its end. -/
def Call.hasReturned : Call → Bool
  | .acquire _ _ .selecting => false
  | .acquire _ _ _ => true
  | .release _ pc => decide (pc = .returned)
  | .destroy _ pc => decide (pc = .returned)
  | .close pc => decide (pc = .returned)

/-- How many moves a call has left at most. -/
def Call.rank : Call → Nat
  | .acquire _ _ .selecting => 1
  | .acquire _ _ _ => 0
  | .release _ .selecting => 2
  | .release _ .sending => 1
  | .release _ .closing => 1
  | .release _ .returned => 0
  | .destroy _ .closing => 4
  | .destroy _ .making => 3
  | .destroy _ (.selecting _) => 2
  | .destroy _ (.sending _) => 1
  | .destroy _ (.closingNew _) => 1
  | .destroy _ .returned => 0
  | .close .cancelling => 1
  | .close .returned => 0

def State.rank (s : State) : Nat := (s.calls.map Call.rank).sum

theorem Moves.rank_lt {p q : Pool} {old new : Call} (h : Moves p old new q) :
    new.rank < old.rank := by
  cases h with
  | _ => exact Nat.lt_succ_self _

theorem rank_ownStep {s t : State} {a : Action} (h : OwnStep s a t) :
    t.rank < s.rank := by
  obtain ⟨hstep, c, rfl⟩ := h
  cases hstep with
  | move _ old new pool hc hmove =>
      have hlower := hmove.rank_lt
      have hsum := sum_map_set Call.rank hc new
      show ((s.calls.set c new).map Call.rank).sum < s.rank
      rw [State.rank]
      omega

theorem OwnStep.disciplined {s t : State} {a : Action} (h : OwnStep s a t) :
    DisciplinedStep s a t := by
  obtain ⟨hstep, c, rfl⟩ := h
  exact ⟨hstep, trivial⟩

/-! ## The calls at rest -/

/-- Every call has returned, or is an `Acquire` that waits for a connection
and has no reason to give up; while the pool is open it waits because all of
them are borrowed. -/
structure Settled (maxSize : Nat) (s : State) : Prop where
  waits : ∀ call ∈ s.calls, call.hasReturned = false →
    ∃ afterClose, call = .acquire afterClose false .selecting ∧
      s.pool.cancelled = false ∧ s.calls.countP Call.borrowed = maxSize
  counted : s.pool.cancelled = false →
    s.pool.idle.length + s.calls.countP Call.borrowed = maxSize

def Stuck (s : State) : Prop := ∀ a t, ¬ OwnStep s a t

namespace Stuck

variable {s : State}

theorem not_moves (h : Stuck s) {c : Nat} {old new : Call} {q : Pool}
    (hc : s.calls[c]? = some old) : ¬ Moves s.pool old new q :=
  fun hmove => h _ _ ⟨.move s c old new q hc hmove, c, rfl⟩

/-- **At rest** a call that has not returned is an `Acquire` that finds no
case of its `select` ready. -/
theorem waits (h : Stuck s) (hslots : SlotInvariant s) {c : Nat} {call : Call}
    (hc : s.calls[c]? = some call) (hwaits : call.hasReturned = false) :
    ∃ afterClose, call = .acquire afterClose false .selecting ∧
      s.pool.cancelled = false ∧ s.pool.idle = [] := by
  have hmem := List.mem_of_getElem? hc
  match call with
  | .acquire afterClose ctxDone .selecting =>
      cases hcancelled : s.pool.cancelled with
      | true => exact absurd (.acquireClosed _ _ hcancelled) (h.not_moves hc)
      | false =>
          cases hidle : s.pool.idle with
          | cons conn rest =>
              exact absurd (.acquireIdle _ _ _ _ hidle) (h.not_moves hc)
          | nil =>
              cases ctxDone with
              | true => exact absurd (.acquireTimeout _) (h.not_moves hc)
              | false => exact ⟨afterClose, rfl, rfl, rfl⟩
  | .release conn .selecting =>
      cases hcancelled : s.pool.cancelled with
      | true => exact absurd (.releaseDone _ hcancelled) (h.not_moves hc)
      | false => exact absurd (.releaseDefault _ hcancelled) (h.not_moves hc)
  | .release conn .sending =>
      have hroom := hslots.idle_lt_of_sends hmem rfl
      exact absurd (.releaseSends _ hroom) (h.not_moves hc)
  | .release conn .closing => exact absurd (.releaseCloses _) (h.not_moves hc)
  | .destroy conn .closing => exact absurd (.destroyCloses _) (h.not_moves hc)
  | .destroy conn .making => exact absurd (.destroyMakes _) (h.not_moves hc)
  | .destroy conn (.selecting newConn) =>
      cases hcancelled : s.pool.cancelled with
      | true => exact absurd (.destroyDone _ _ hcancelled) (h.not_moves hc)
      | false =>
          exact absurd (.destroyDefault _ _ hcancelled) (h.not_moves hc)
  | .destroy conn (.sending newConn) =>
      have hroom := hslots.idle_lt_of_sends hmem rfl
      exact absurd (.destroySends _ _ hroom) (h.not_moves hc)
  | .destroy conn (.closingNew newConn) =>
      exact absurd (.destroyClosesNew _ _) (h.not_moves hc)
  | .close .cancelling => exact absurd .closeCancels (h.not_moves hc)

theorem settled (h : Stuck s) (hslots : SlotInvariant s) :
    Settled s.pool.maxSize s := by
  have hnone : s.calls.countP Call.givingBack = 0 := by
    apply List.countP_eq_zero.mpr
    intro call hmem hgiving
    obtain ⟨c, hc⟩ := List.mem_iff_getElem?.mp hmem
    cases hreturned : call.hasReturned with
    | false =>
        obtain ⟨afterClose, rfl, -⟩ := h.waits hslots hc hreturned
        cases hgiving
    | true =>
        match call with
        | .release _ .returned => cases hgiving
        | .destroy _ .returned => cases hgiving
  have hcounted : s.pool.cancelled = false →
      s.pool.idle.length + s.calls.countP Call.borrowed =
        s.pool.maxSize := by
    intro hopen
    have hslots := hslots.slots_eq hopen
    rw [State.slots] at hslots
    omega
  refine ⟨fun call hmem hwaits => ?_, hcounted⟩
  obtain ⟨c, hc⟩ := List.mem_iff_getElem?.mp hmem
  obtain ⟨afterClose, hcall, hopen, hidle⟩ := h.waits hslots hc hwaits
  have htotal := hcounted hopen
  rw [hidle, List.length_nil] at htotal
  exact ⟨afterClose, hcall, hopen, by omega⟩

end Stuck

/-- **The pool always settles.**  From every state reachable by users who give
back what they borrowed, once, whatever factory calls fail and whether or not
the pool is closed: if no further call begins, then in every schedule every
`Release`, `Destroy` and `Close` returns, and so does every `Acquire` but those
for which `max_size` others hold connections in a pool that is open. -/
theorem connections_settle {maxCap : Nat} {maxSize : Int}
    {succeeds : Nat → Bool} {s₀ : State}
    (hnew : newPool maxCap maxSize succeeds = .ok s₀) {s : State}
    (hs : Reaches DisciplinedStep s₀ s) :
    Inevitable OwnStep (Settled maxSize.toNat) s := by
  obtain ⟨-, rfl⟩ := eq_initial_of_newPool hnew
  refine .of_rank
    (I := fun t => Reaches DisciplinedStep (State.initial maxSize.toNat) t)
    State.rank (fun _ _ _ hreach hstep => hreach.tail hstep.disciplined)
    (fun _ _ _ _ hstep => rank_ownStep hstep) (fun t hreach hrest => ?_) hs
  by_contra hnone
  push Not at hnone
  have hslots : SlotInvariant t :=
    hreach.invariant (fun _ _ _ h hstep => h.step hstep)
      (slotInvariant_initial _)
  have hmax : t.pool.maxSize = maxSize.toNat :=
    maxSize_of_reaches (hreach.mono fun hstep => hstep.1)
  have hstuck : Stuck t := hnone
  have hsettled := hstuck.settled hslots
  rw [hmax] at hsettled
  exact hrest hsettled

/-- Two callers for one connection: in every schedule one of them ends up
waiting for the other. -/
theorem connections_settle_two :
    ∃ s : State, s.calls = [.acquire false false .selecting,
        .acquire false false .selecting] ∧
      Inevitable OwnStep (Settled 1) s := by
  have hfirst : DisciplinedStep (State.initial 1) .acquire _ :=
    ⟨.acquire _, trivial⟩
  have hboth := (Reaches.single hfirst).tail ⟨.acquire _, trivial⟩
  have hnew : newPool 1024 1 (fun _ => true) = .ok (State.initial 1) := rfl
  exact ⟨_, rfl, connections_settle hnew hboth⟩

end GoPrep.Ports.ConnectionPool
