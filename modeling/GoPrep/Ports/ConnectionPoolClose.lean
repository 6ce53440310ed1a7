import GoPrep.Ports.ConnectionPool

/-!
# What `Close` prevents

`Close` cancels the context of the pool and leaves `idle_connections` as it
is.  An `Acquire` that begins later finds its first case ready, but also its
last one as long as a connection is idle, and its `select` prefers neither.
A connection can still become idle after the cancellation, if a `Release` or
`Destroy` has passed its own `select` by then.

## Main results

* `CloseInvariant.step` — a pool that is drained when it is cancelled stays
  so.
* `close_stops_acquire_iff` — no later `Acquire` gets a connection exactly
  when the pool is drained then.
* `acquire_after_close` — a run in which one does.
-/

namespace GoPrep.Ports.ConnectionPool

open GoPrep.Verified.ThreadTable
open GoPrep.Verified.Transition

namespace Call

/-- The call is an `Acquire` that began after the cancellation. -/
def afterClose : Call → Bool
  | .acquire afterClose _ _ => afterClose
  | _ => false

def acquiredAfterClose : Call → Bool
  | .acquire true _ (.acquired _ _) => true
  | _ => false

/-- The call is past the `default` of its `select`, at its send. -/
def sends : Call → Bool
  | .release _ .sending => true
  | .destroy _ (.sending _) => true
  | _ => false

theorem acquiredAfterClose_of_not_afterClose {call : Call}
    (h : call.afterClose = false) : call.acquiredAfterClose = false := by
  unfold acquiredAfterClose
  split
  · cases h
  · rfl

end Call

/-- No `Acquire` that began after the cancellation has got a connection. -/
def NoneAfterClose (s : State) : Prop :=
  ∀ call ∈ s.calls, call.acquiredAfterClose = false

/-- No connection is idle, and none is about to become so. -/
structure Drained (s : State) : Prop where
  idle : s.pool.idle = []
  sends : ∀ call ∈ s.calls, call.sends = false

/-- A `Close` cancels a drained pool. -/
def ClosesDrained (s : State) : Action → Prop
  | .move c => s.calls[c]? = some (.close .cancelling) → Drained s
  | _ => True

/-- While the pool is open no call began after its cancellation. -/
def NoneBegun (s : State) : Prop :=
  s.pool.cancelled = false → ∀ call ∈ s.calls, call.afterClose = false

structure CloseInvariant (s : State) : Prop where
  before : NoneBegun s
  after : s.pool.cancelled = true → Drained s ∧ NoneAfterClose s

theorem closeInvariant_initial (maxSize : Nat) :
    CloseInvariant (State.initial maxSize) where
  before := fun _ _ hcall => by cases hcall
  after := fun h => Bool.noConfusion h

namespace Moves

variable {p q : Pool} {old new : Call}

theorem maxSize_eq (h : Moves p old new q) : q.maxSize = p.maxSize := by
  cases h <;> rfl

theorem cancelled (h : Moves p old new q) (hcancelled : p.cancelled = true) :
    q.cancelled = true := by
  cases h with
  | closeCancels => rfl
  | _ => exact hcancelled

/-- While the pool is open only `Close` changes that. -/
theorem of_open (h : Moves p old new q) (hopen : p.cancelled = false) :
    new.afterClose = old.afterClose ∧
      (q.cancelled = true → old = .close .cancelling) := by
  cases h with
  | closeCancels => exact ⟨rfl, fun _ => rfl⟩
  | _ =>
      refine ⟨rfl, fun hcancelled => ?_⟩
      exact absurd (hopen.symm.trans hcancelled) (by simp)

/-- **A drained and cancelled pool** stays so, and hands out nothing. -/
theorem of_drained (h : Moves p old new q) (hcancelled : p.cancelled = true)
    (hidle : p.idle = []) (hsends : old.sends = false) :
    q.cancelled = true ∧ q.idle = [] ∧ new.sends = false ∧
      new.acquiredAfterClose = old.acquiredAfterClose := by
  cases h with
  | acquireIdle afterClose ctxDone conn rest hsome =>
      rw [hidle] at hsome
      cases hsome
  | releaseDefault conn hopen | destroyDefault conn newConn hopen =>
      rw [hcancelled] at hopen
      cases hopen
  | releaseSends | destroySends => cases hsends
  | acquireClosed afterClose | acquireTimeout afterClose =>
      cases afterClose <;> exact ⟨hcancelled, hidle, rfl, rfl⟩
  | closeCancels => exact ⟨rfl, hidle, rfl, rfl⟩
  | _ => exact ⟨hcancelled, hidle, rfl, rfl⟩

end Moves

/-- Only `Close` cancels. -/
theorem Step.cancels {s t : State} {a : Action} (h : Step s a t)
    (hopen : s.pool.cancelled = false) (hcancelled : t.pool.cancelled = true) :
    ∃ c, a = .move c ∧ s.calls[c]? = some (.close .cancelling) := by
  cases h with
  | move c old new pool hc hmove =>
      obtain rfl := (hmove.of_open hopen).2 hcancelled
      exact ⟨c, rfl, hc⟩
  | _ => exact absurd (hopen.symm.trans hcancelled) (by simp)

theorem NoneBegun.step {s t : State} {a : Action} (h : NoneBegun s)
    (hstep : Step s a t) : NoneBegun t := by
  cases hstep with
  | acquire => exact fun hopen => forall_mem_concat (h hopen) hopen
  | ctxDone c afterClose ctxDone pc hc =>
      intro hopen
      have hbegan : afterClose = false :=
        h hopen _ (List.mem_of_getElem? hc)
      exact forall_mem_set (h hopen) hbegan
  | giveBack giving c afterClose ctxDone conn hc =>
      intro hopen
      have hbegan : afterClose = false :=
        h hopen _ (List.mem_of_getElem? hc)
      refine forall_mem_concat (forall_mem_set (h hopen) hbegan) ?_
      cases giving <;> rfl
  | give giving conn =>
      intro hopen
      refine forall_mem_concat (h hopen) ?_
      cases giving <;> rfl
  | close => exact fun hopen => forall_mem_concat (h hopen) rfl
  | move c old new pool hc hmove =>
      intro hopen
      cases hcancelled : s.pool.cancelled with
      | false =>
          exact forall_mem_set (h hcancelled)
            ((hmove.of_open hcancelled).1.trans
              (h hcancelled old (List.mem_of_getElem? hc)))
      | true =>
          rw [hmove.cancelled hcancelled] at hopen
          cases hopen

namespace Drained

variable {s : State}

theorem concat (h : Drained s) {call : Call} (hsends : call.sends = false) :
    Drained { s with calls := s.calls ++ [call] } :=
  ⟨h.idle, forall_mem_concat h.sends hsends⟩

theorem set (h : Drained s) (c : Nat) {call : Call}
    (hsends : call.sends = false) :
    Drained { s with calls := s.calls.set c call } :=
  ⟨h.idle, forall_mem_set h.sends hsends⟩

end Drained

/-- **Once a drained pool is cancelled** it stays so, and hands out
nothing. -/
theorem step_of_drained {s t : State} {a : Action}
    (hcancelled : s.pool.cancelled = true) (hdrained : Drained s)
    (hnone : NoneAfterClose s) (hstep : Step s a t) :
    t.pool.cancelled = true ∧ Drained t ∧ NoneAfterClose t := by
  cases hstep with
  | acquire =>
      refine ⟨hcancelled, hdrained.concat rfl, forall_mem_concat hnone ?_⟩
      rw [hcancelled]
      rfl
  | ctxDone c afterClose ctxDone pc hc =>
      refine ⟨hcancelled, hdrained.set c rfl, forall_mem_set hnone ?_⟩
      have hold := hnone _ (List.mem_of_getElem? hc)
      cases afterClose <;> cases pc <;> exact hold
  | giveBack giving c afterClose ctxDone conn hc =>
      have hold := hnone _ (List.mem_of_getElem? hc)
      have hset := forall_mem_set hnone (i := c)
        (show (Call.acquire afterClose ctxDone
          (.acquired conn false)).acquiredAfterClose = false by
          cases afterClose <;> exact hold)
      cases giving <;> exact ⟨hcancelled, (hdrained.set c rfl).concat rfl,
        forall_mem_concat hset rfl⟩
  | give giving conn =>
      cases giving <;> exact ⟨hcancelled, hdrained.concat rfl,
        forall_mem_concat hnone rfl⟩
  | close =>
      exact ⟨hcancelled, hdrained.concat rfl, forall_mem_concat hnone rfl⟩
  | move c old new pool hc hmove =>
      have hold := List.mem_of_getElem? hc
      obtain ⟨hstays, hidle, hsends, hacquired⟩ :=
        hmove.of_drained hcancelled hdrained.idle (hdrained.sends old hold)
      exact ⟨hstays, ⟨hidle, forall_mem_set hdrained.sends hsends⟩,
        forall_mem_set hnone (hacquired.trans (hnone old hold))⟩

/-- The step that cancels a drained pool. -/
theorem drained_of_cancels {s t : State} {c : Nat} (hbegun : NoneBegun s)
    (hopen : s.pool.cancelled = false) (hdrained : Drained s)
    (hclose : s.calls[c]? = some (.close .cancelling))
    (hstep : Step s (.move c) t) :
    t.pool.cancelled = true ∧ Drained t ∧ NoneAfterClose t := by
  cases hstep with
  | move _ old new pool hc hmove =>
      obtain rfl := Option.some.inj (hclose.symm.trans hc)
      cases hmove with
      | closeCancels =>
          refine ⟨rfl, ⟨hdrained.idle, forall_mem_set hdrained.sends rfl⟩,
            forall_mem_set (fun call hcall => ?_) rfl⟩
          exact Call.acquiredAfterClose_of_not_afterClose
            (hbegun hopen call hcall)

namespace CloseInvariant

variable {s t : State} {a : Action}

theorem noneAfterClose (h : CloseInvariant s) : NoneAfterClose s := by
  intro call hcall
  cases hcancelled : s.pool.cancelled with
  | false =>
      exact Call.acquiredAfterClose_of_not_afterClose
        (h.before hcancelled call hcall)
  | true => exact (h.after hcancelled).2 call hcall

/-- **Every step preserves the invariant**, if it cancels a drained pool
only. -/
theorem step (h : CloseInvariant s) (hdrained : ClosesDrained s a)
    (hstep : Step s a t) : CloseInvariant t := by
  refine ⟨h.before.step hstep, fun hclosed => ?_⟩
  cases hcancelled : s.pool.cancelled with
  | true =>
      obtain ⟨hempty, hnone⟩ := h.after hcancelled
      exact (step_of_drained hcancelled hempty hnone hstep).2
  | false =>
      obtain ⟨c, rfl, hclose⟩ := hstep.cancels hcancelled hclosed
      exact (drained_of_cancels h.before hcancelled (hdrained hclose) hclose
        hstep).2

end CloseInvariant

/-! ## A pool that is not drained -/

/-- An idle connection is handed out after the cancellation. -/
theorem acquires_of_idle {s : State} (hcancelled : s.pool.cancelled = true)
    (hidle : s.pool.idle ≠ []) :
    ∃ t, Reaches Step s t ∧ ¬ NoneAfterClose t := by
  obtain ⟨conn, rest, hidle⟩ := List.exists_cons_of_ne_nil hidle
  have hbegun := Reaches.single (Step.acquire s)
  rw [hcancelled] at hbegun
  refine ⟨_, hbegun.tail (.move _ s.calls.length _ _ _
    List.getElem?_concat_length (.acquireIdle true false conn rest hidle)),
    fun hnone => ?_⟩
  have hlast := hnone _ (List.mem_of_getElem? (List.getElem?_set_self
    (by simp) : _ = some (Call.acquire true false (.acquired conn true))))
  cases hlast

/-- With room in the channel a call at its send sends. -/
theorem exists_send {p : Pool} {call : Call} (hsends : call.sends = true)
    (hroom : p.idle.length < p.maxSize) :
    ∃ new conn, Moves p call new (p.send conn) := by
  unfold Call.sends at hsends
  split at hsends
  next conn => exact ⟨_, conn, .releaseSends conn hroom⟩
  next conn newConn => exact ⟨_, newConn, .destroySends conn newConn hroom⟩
  next => cases hsends

/-- A call at its send makes a connection idle, if none is. -/
theorem idle_of_sends {s : State} (hpos : 0 < s.pool.maxSize)
    (hcancelled : s.pool.cancelled = true) {call : Call}
    (hcall : call ∈ s.calls) (hsends : call.sends = true) :
    ∃ t, Reaches Step s t ∧ t.pool.cancelled = true ∧ t.pool.idle ≠ [] := by
  by_cases hidle : s.pool.idle = []
  · have hroom : s.pool.idle.length < s.pool.maxSize := by
      rw [hidle]
      exact hpos
    obtain ⟨c, hc⟩ := List.mem_iff_getElem?.mp hcall
    obtain ⟨new, conn, hmove⟩ := exists_send hsends hroom
    exact ⟨_, .single (.move s c call new _ hc hmove), hcancelled,
      by simp [Pool.send]⟩
  · exact ⟨s, .refl, hcancelled, hidle⟩

theorem maxSize_of_reaches {s t : State} (h : Reaches Step s t) :
    t.pool.maxSize = s.pool.maxSize := by
  induction h with
  | refl => rfl
  | tail _ hlast ih =>
      rw [← ih]
      cases hlast with
      | move c old new pool _ hmove => exact hmove.maxSize_eq
      | _ => rfl

/-- If nothing is handed out after the cancellation, the pool was drained. -/
theorem drained_of_none {s t : State} {c : Nat} (hpos : 0 < s.pool.maxSize)
    (hclose : s.calls[c]? = some (.close .cancelling))
    (hstep : Step s (.move c) t)
    (hall : ∀ u, Reaches Step t u → NoneAfterClose u) : Drained s := by
  cases hstep with
  | move _ old new pool hc hmove =>
      obtain rfl := Option.some.inj (hclose.symm.trans hc)
      cases hmove with
      | closeCancels =>
          have hidle : ∀ u, Reaches Step
              { pool := s.pool.cancel
                calls := s.calls.set c (.close .returned) } u →
              u.pool.cancelled = true → u.pool.idle = [] := by
            intro u hu hcancelled
            by_contra hsome
            obtain ⟨v, hv, hbad⟩ := acquires_of_idle hcancelled hsome
            exact hbad (hall v (hu.trans hv))
          have hnow := hidle _ .refl rfl
          refine ⟨hnow, fun call hcall => ?_⟩
          cases hsends : call.sends with
          | false => rfl
          | true =>
              exfalso
              obtain ⟨d, hd⟩ := List.mem_iff_getElem?.mp hcall
              have hd' := getElem?_set_of_ne hc hd
                (by rintro rfl; cases hsends) (.close .returned)
              obtain ⟨u, hu, hcancelled, hsome⟩ := idle_of_sends
                (s := { pool := s.pool.cancel
                        calls := s.calls.set c (.close .returned) })
                hpos rfl (List.mem_of_getElem? hd') hsends
              exact hsome (hidle u hu hcancelled)

/-- **When no connection is handed out after `Close`.**  Along every run whose
cancellations each find no connection idle and no `Release` or `Destroy` at
its send, no `Acquire` that began after the cancellation gets a connection.
And take any reachable state about to be cancelled: in no continuation does
such an `Acquire` get one, if and only if the state is so. -/
theorem close_stops_acquire_iff {maxCap : Nat} {maxSize : Int}
    {succeeds : Nat → Bool} {s₀ : State}
    (hnew : newPool maxCap maxSize succeeds = .ok s₀) :
    (∀ run, IsRun Step s₀ run → StepsAll ClosesDrained s₀ run →
      StatesAll NoneAfterClose run) ∧
    ∀ s c t, Reaches Step s₀ s → s.pool.cancelled = false →
      s.calls[c]? = some (.close .cancelling) → Step s (.move c) t →
      ((∀ u, Reaches Step t u → NoneAfterClose u) ↔ Drained s) := by
  obtain ⟨hpos, rfl⟩ := eq_initial_of_newPool hnew
  constructor
  · intro run hrun hdrained entry hentry
    exact (statesAll_of_stepsAll (fun _ _ _ h hC hstep => h.step hC hstep)
      hrun (closeInvariant_initial _) hdrained entry hentry).noneAfterClose
  · intro s c t hs hopen hclose hstep
    have hbegun := hs.invariant (fun _ _ _ h hstep => NoneBegun.step h hstep)
      (closeInvariant_initial _).before
    constructor
    · apply drained_of_none _ hclose hstep
      rw [maxSize_of_reaches hs]
      exact hpos
    · intro hdrained u hu
      have hafter := drained_of_cancels hbegun hopen hdrained hclose hstep
      exact (hu.invariant (I := fun u => u.pool.cancelled = true ∧
        Drained u ∧ NoneAfterClose u) (fun _ _ _ ⟨hcancelled, hdrained, hnone⟩
          hstep => step_of_drained hcancelled hdrained hnone hstep)
        hafter).2.2

/-- The one connection is borrowed when the pool is closed, and its `Release`
closes it. -/
theorem close_stops_acquire_iff_borrowed :
    ∃ run : List (Action × State), IsRun Step (State.initial 1) run ∧
      run.map Prod.fst = [.acquire, .move 0, .close, .move 1, .giveBack
        .release 0, .move 2, .move 2, .acquire, .move 3] ∧
      run.getLast?.map (fun entry => entry.2.calls[3]?) =
        some (some (.acquire true false .poolClosed)) ∧
      StatesAll NoneAfterClose run := by
  have hrun : IsRun (α := Action) Step (State.initial 1)
      [(_, _), (_, _), (_, _), (_, _), (_, _), (_, _), (_, _), (_, _),
        (_, _)] :=
    ⟨.acquire _, .move _ 0 _ _ _ rfl (.acquireIdle _ _ (some 0) [] rfl),
      .close _, .move _ 1 _ _ _ rfl .closeCancels,
      .giveBack _ .release 0 _ _ _ rfl,
      .move _ 2 _ _ _ rfl (.releaseDone _ rfl),
      .move _ 2 _ _ _ rfl (.releaseCloses _), .acquire _,
      .move _ 3 _ _ _ rfl (.acquireClosed _ _ rfl), trivial⟩
  have hnew : newPool 1024 1 (fun _ => true) = .ok (State.initial 1) := rfl
  refine ⟨_, hrun, rfl, rfl, (close_stops_acquire_iff hnew).1 _ hrun ?_⟩
  refine ⟨trivial, fun hc => ?_, trivial, fun _ => ⟨rfl, ?_⟩, trivial,
    fun hc => ?_, fun hc => ?_, trivial, fun hc => ?_, trivial⟩
  · cases Option.some.inj hc
  · -- the state that `Close` finds
    intro call hcall
    rcases List.mem_cons.mp hcall with rfl | hcall
    · rfl
    · rw [List.mem_singleton.mp hcall]
      rfl
  · cases Option.some.inj hc
  · cases Option.some.inj hc
  · cases Option.some.inj hc

/-- **An `Acquire` may succeed after `Close`.**  The one connection is idle
when the pool is cancelled, and the `select` of a later `Acquire` takes it. -/
theorem acquire_after_close :
    ∃ s t : State, newPool 1024 1 (fun _ => true) = .ok s ∧ Reaches Step s t ∧
      t.pool.cancelled = true ∧
      t.calls = [.close .returned,
        .acquire true false (.acquired (some 0) true)] ∧
      ¬ NoneAfterClose t := by
  have hclosed := (Reaches.single (Step.close (State.initial 1))).tail
    (.move _ 0 _ _ _ rfl .closeCancels)
  have hacquired := (hclosed.tail (.acquire _)).tail
    (.move _ 1 _ _ _ rfl (.acquireIdle _ _ (some 0) [] rfl))
  refine ⟨_, _, rfl, hacquired, rfl, rfl, fun hnone => ?_⟩
  cases hnone (.acquire true false (.acquired (some 0) true))
    (List.mem_cons_of_mem _ List.mem_cons_self)

end GoPrep.Ports.ConnectionPool
