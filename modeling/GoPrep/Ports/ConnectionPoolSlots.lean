import GoPrep.Ports.ConnectionPoolClose

/-!
# The slots of the pool

Every connection slot is idle, borrowed, or with a call of `Release` or
`Destroy` that has yet to fill it, and none is lost when the factory fails:
`Destroy` sends whatever it got.  The sends after the `default` of the two
`select`s rest on this, since nothing else says that the channel has room.

## Main results

* `SlotInvariant.step` — the slots add up, in all interleavings of users who
  give back what they borrowed, once.
* `slots_conserved` — the count, the sends and the bound in every reachable
  state.
-/

namespace GoPrep.Ports.ConnectionPool

open GoPrep.Verified.ThreadTable
open GoPrep.Verified.Transition

namespace Call

/-- The call is an `Acquire` whose connection has not been given back. -/
def borrowed : Call → Bool
  | .acquire _ _ (.acquired _ true) => true
  | _ => false

/-- The call is inside `Release` or `Destroy`, and has not sent. -/
def givingBack : Call → Bool
  | .release _ .returned => false
  | .release _ _ => true
  | .destroy _ .returned => false
  | .destroy _ _ => true
  | _ => false

/-- The call has found the pool closed, and is about to close a file
descriptor instead of sending. -/
def discards : Call → Bool
  | .release _ .closing => true
  | .destroy _ (.closingNew _) => true
  | _ => false

/-- The slots a call takes up. -/
def slots (call : Call) : Nat :=
  (if call.borrowed then 1 else 0) + (if call.givingBack then 1 else 0)

end Call

/-- `idle_connections`, the borrowers, and the calls that have yet to send. -/
def State.slots (s : State) : Nat :=
  s.pool.idle.length + s.calls.countP Call.borrowed +
    s.calls.countP Call.givingBack

structure SlotInvariant (s : State) : Prop where
  discards : s.pool.cancelled = false → ∀ call ∈ s.calls,
    call.discards = false
  slots_le : s.slots ≤ s.pool.maxSize
  slots_eq : s.pool.cancelled = false → s.slots = s.pool.maxSize

theorem slotInvariant_initial (maxSize : Nat) :
    SlotInvariant (State.initial maxSize) := by
  have hslots : (State.initial maxSize).slots = maxSize := by
    simp [State.slots, State.initial]
  refine ⟨fun _ call hcall => ?_, Nat.le_of_eq hslots, fun _ => hslots⟩
  cases hcall

namespace Moves

variable {p q : Pool} {old new : Call}

/-- **A move passes its slot on**, unless it discards a connection. -/
theorem slots (h : Moves p old new q) :
    q.idle.length + new.slots + (if old.discards then 1 else 0) =
      p.idle.length + old.slots := by
  cases h with
  | acquireIdle afterClose ctxDone conn rest hidle =>
      rw [hidle, List.length_cons]
      rfl
  | releaseSends | destroySends =>
      show (p.idle ++ [_]).length + 0 + 0 = p.idle.length + 1
      rw [List.length_append, List.length_singleton]
  | _ => rfl

/-- Connections are discarded in a closed pool only. -/
theorem discards (h : Moves p old new q) (hopen : q.cancelled = false)
    (hold : old.discards = false) : new.discards = false := by
  cases h with
  | releaseDone conn hcancelled | destroyDone conn newConn hcancelled =>
      rw [hopen] at hcancelled
      cases hcancelled
  | _ => first | exact hold | rfl

end Moves

namespace SlotInvariant

variable {s t : State} {a : Action}

/-- The slots after one call has changed. -/
theorem slots_set {c : Nat} {old : Call} (hc : s.calls[c]? = some old)
    (new : Call) (pool : Pool) :
    State.slots { pool := pool, calls := s.calls.set c new } + old.slots +
        s.pool.idle.length =
      s.slots + new.slots + pool.idle.length := by
  have hborrowed := countP_set Call.borrowed hc new
  have hgiving := countP_set Call.givingBack hc new
  simp only [State.slots, Call.slots]
  omega

/-- The slots after a call has begun. -/
theorem slots_concat (pool : Pool) (calls : List Call) (call : Call) :
    State.slots { pool := pool, calls := calls ++ [call] } =
      State.slots { pool := pool, calls := calls } + call.slots := by
  simp only [State.slots, Call.slots, List.countP_append,
    List.countP_singleton]
  omega

/-- A step that loses no slot while the pool is open. -/
theorem of_slots (h : SlotInvariant s)
    (hmax : t.pool.maxSize = s.pool.maxSize)
    (hopen : t.pool.cancelled = false → s.pool.cancelled = false)
    (hdiscards : t.pool.cancelled = false → ∀ call ∈ t.calls,
      call.discards = false)
    (hle : t.slots ≤ s.slots)
    (heq : t.pool.cancelled = false → t.slots = s.slots) :
    SlotInvariant t where
  discards := hdiscards
  slots_le := by
    rw [hmax]
    exact Nat.le_trans hle h.slots_le
  slots_eq := fun hclosed => by
    rw [heq hclosed, hmax]
    exact h.slots_eq (hopen hclosed)

/-- **Every disciplined step preserves the invariant.** -/
theorem step (h : SlotInvariant s) (hstep : DisciplinedStep s a t) :
    SlotInvariant t := by
  obtain ⟨hstep, hdisciplined⟩ := hstep
  have hconcat : ∀ {call : Call}, call.slots = 0 → call.discards = false →
      SlotInvariant { s with calls := s.calls ++ [call] } := by
    intro call hslots hdiscards
    have hcount : State.slots { s with calls := s.calls ++ [call] } =
        s.slots + call.slots := slots_concat s.pool s.calls call
    exact h.of_slots rfl id
      (fun hopen => forall_mem_concat (h.discards hopen) hdiscards)
      (by omega) (fun _ => by omega)
  cases hstep with
  | acquire => exact hconcat rfl rfl
  | close => exact hconcat rfl rfl
  | give giving conn => exact absurd hdisciplined id
  | ctxDone c afterClose ctxDone pc hc =>
      have hcount := slots_set hc (.acquire afterClose true pc) s.pool
      have hsame : (Call.acquire afterClose true pc).slots =
          (Call.acquire afterClose ctxDone pc).slots := by
        cases pc with
        | acquired conn held => cases held <;> rfl
        | _ => rfl
      exact h.of_slots rfl id
        (fun hopen => forall_mem_set (h.discards hopen) rfl)
        (by omega) (fun _ => by omega)
  | giveBack giving c afterClose ctxDone conn hc =>
      have hset := slots_set hc
        (.acquire afterClose ctxDone (.acquired conn false)) s.pool
      have hcount := slots_concat s.pool (s.calls.set c
        (.acquire afterClose ctxDone (.acquired conn false)))
        (giving.call conn)
      have hold : (Call.acquire afterClose ctxDone
          (.acquired conn true)).slots = 1 := rfl
      have hnew : (Call.acquire afterClose ctxDone
          (.acquired conn false)).slots = 0 := rfl
      have hgiving : (giving.call conn).slots = 1 := by
        cases giving <;> rfl
      refine h.of_slots rfl id (fun hopen => forall_mem_concat
        (forall_mem_set (h.discards hopen) rfl) ?_)
        (by omega) (fun _ => by omega)
      cases giving <;> rfl
  | move c old new pool hc hmove =>
      have hset := slots_set hc new pool
      have hmoves := hmove.slots
      have hopen : pool.cancelled = false → s.pool.cancelled = false := by
        intro hopen
        cases hcancelled : s.pool.cancelled with
        | false => rfl
        | true => exact (hmove.cancelled hcancelled).symm.trans hopen
      have hold : pool.cancelled = false → old.discards = false :=
        fun hclosed =>
          h.discards (hopen hclosed) old (List.mem_of_getElem? hc)
      refine h.of_slots hmove.maxSize_eq hopen (fun hclosed => ?_)
        (by omega) (fun hclosed => ?_)
      · exact forall_mem_set (h.discards (hopen hclosed))
          (hmove.discards hclosed (hold hclosed))
      · rw [hold hclosed] at hmoves
        simp only [Bool.false_eq_true, if_false] at hmoves
        omega

/-- A call at its send takes up a slot, so one is free in the channel. -/
theorem idle_lt_of_sends (h : SlotInvariant s) {call : Call}
    (hcall : call ∈ s.calls) (hsends : call.sends = true) :
    s.pool.idle.length < s.pool.maxSize := by
  have hgiving : call.givingBack = true := by
    unfold Call.sends at hsends
    split at hsends
    · rfl
    · rfl
    · cases hsends
  have hpos := List.countP_pos_iff.mpr ⟨call, hcall, hgiving⟩
  have hle := h.slots_le
  rw [State.slots] at hle
  omega

end SlotInvariant

/-- **No slot is lost, and no send blocks.**  In every state reachable by users
who give back what they borrowed, once, whatever factory calls fail: until
the pool is closed, `max_size` is the number of idle connections, of
connections borrowed, and of calls inside `Release` or `Destroy` that have not
sent; a call at its send can send; and never more than `max_size` connections
are idle or borrowed. -/
theorem slots_conserved {maxCap : Nat} {maxSize : Int}
    {succeeds : Nat → Bool} {s₀ : State}
    (hnew : newPool maxCap maxSize succeeds = .ok s₀) {s : State}
    (hs : Reaches DisciplinedStep s₀ s) :
    (s.pool.cancelled = false →
      (s.pool.idle.length + s.calls.countP Call.borrowed +
        s.calls.countP Call.givingBack : Nat) = maxSize) ∧
    (∀ (c : Nat) (call : Call), s.calls[c]? = some call →
      call.sends = true → ∃ t, Step s (.move c) t) ∧
    (s.pool.idle.length + s.calls.countP Call.borrowed : Nat) ≤ maxSize := by
  obtain ⟨hpos, rfl⟩ := eq_initial_of_newPool hnew
  have hinv := hs.invariant (fun _ _ _ h hstep => h.step hstep)
    (slotInvariant_initial _)
  have hmax : s.pool.maxSize = maxSize.toNat :=
    maxSize_of_reaches (hs.mono fun hstep => hstep.1)
  have hle := hinv.slots_le
  have heq := hinv.slots_eq
  rw [State.slots, hmax] at hle heq
  refine ⟨fun hopen => ?_, fun c call hc hsends => ?_, by omega⟩
  · have htotal := heq hopen
    omega
  · have hroom := hinv.idle_lt_of_sends (List.mem_of_getElem? hc) hsends
    obtain ⟨new, conn, hmove⟩ := exists_send hsends hroom
    exact ⟨_, .move s c call new _ hc hmove⟩

/-- The one connection is destroyed, and the factory fails to replace it. -/
theorem slots_conserved_destroy :
    ∃ s t : State, Reaches DisciplinedStep (State.initial 1) s ∧
      s.pool.idle.length = 0 ∧ s.calls.countP Call.borrowed = 0 ∧
      s.calls.countP Call.givingBack = 1 ∧
      s.calls[1]? = some (.destroy (some 0) (.sending none)) ∧
      Step s (.move 1) t := by
  have hbegun : DisciplinedStep (State.initial 1) .acquire _ :=
    ⟨.acquire _, trivial⟩
  have hacquired := (Reaches.single hbegun).tail
    ⟨.move _ 0 _ _ _ rfl (.acquireIdle _ _ (some 0) [] rfl), trivial⟩
  have hdestroyed := (hacquired.tail
    ⟨.giveBack _ .destroy 0 _ _ _ rfl, trivial⟩).tail
    ⟨.move _ 1 _ _ _ rfl (.destroyCloses _), trivial⟩
  have hfailed := (hdestroyed.tail
    ⟨.move _ 1 _ _ _ rfl (.destroyFails _), trivial⟩).tail
    ⟨.move _ 1 _ _ _ rfl (.destroyDefault _ _ rfl), trivial⟩
  have hnew : newPool 1024 1 (fun _ => true) = .ok (State.initial 1) := rfl
  obtain ⟨-, hsend, -⟩ := slots_conserved hnew hfailed
  obtain ⟨t, ht⟩ := hsend 1 _ rfl rfl
  exact ⟨_, t, hfailed, rfl, rfl, rfl, rfl, ht⟩

end GoPrep.Ports.ConnectionPool
