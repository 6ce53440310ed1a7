import GoPrep.Ports.EventBusDrains
import GoPrep.Verified.Inevitable

/-!
# The event bus settles

When no further call begins, nothing more is sent, no context expires and the
handlers return, the event bus comes to rest in every schedule: all calls have
returned and all payloads were handled.  If there was a `Close`, all its
goroutines have ended.  Only where `make` refuses the configured buffer does a
`Subscribe` panic instead of returning.

A channel costs its `close`, a payload its way through the handler, and a
goroutine its end; the rank below counts these.

## Main results

* `rank_ownStep` — every step lowers the rank.
* `WaitInvariant.step` — no waiter sleeps on a wait group that is at zero.
* `MakeInvariant.step` — a `Subscribe` panics only if `make` refuses.
* `event_bus_settles` — the calls return and the channels drain.
-/

namespace GoPrep.Ports.EventBus

open GoPrep.Verified.ThreadTable
open GoPrep.Verified.Transition

variable {Payload : Type}

/-- The steps of the calls and goroutines that are there. -/
def Action.own : Action Payload → Bool
  | .move _ => true
  | .handler _ => true
  | .waiter _ => true
  | _ => false

def OwnStep (s : State Payload) (a : Action Payload) (t : State Payload) :
    Prop :=
  Step s a t ∧ a.own = true

/-! ## The rank -/

def SubscribePc.rank : SubscribePc → Nat
  | .locking => 10
  | .checkingClosed => 9
  | .checkingLimit => 8
  | .registering => 7
  | .adding _ => 5
  | .starting _ => 4
  | .unlocking _ => 1
  | .returned _ => 0
  | .panicking => 1
  | .panicked => 0

/-- The loop of `closing` is paid for by the channels. -/
def ClosePc.rank : ClosePc → Nat
  | .once => 12
  | .locking => 11
  | .settingClosed => 10
  | .closing _ => 9
  | .unlocking => 8
  | .leavingOnce => 7
  | .startingWaiter => 6
  | .selecting _ => 1
  | .returned _ => 0

def Call.rank : Call → Nat
  | .publish _ => 1
  | .published _ => 0
  | .subscribe _ pc => pc.rank
  | .close _ pc => pc.rank

def Channel.rank (channel : Channel Payload) : Nat :=
  2 * channel.buffer.length + if channel.closes = 0 then 1 else 0

def HandlerPc.rank : HandlerPc Payload → Nat
  | .ranging => 2
  | .handling _ => 3
  | .finishing => 1
  | .exited => 0

def WaiterPc.rank : WaiterPc → Nat
  | .waiting => 4
  | .asleep => 3
  | .released => 2
  | .closingDone => 1
  | .finished => 0

def Bus.rank (b : Bus Payload) : Nat := (b.topics.map Channel.rank).sum

def Effect.rank : Effect → Nat
  | .startsHandler _ => 2
  | .startsWaiter => 4
  | _ => 0

def State.rank (s : State Payload) : Nat :=
  s.bus.rank + (s.calls.map Call.rank).sum +
    (s.handlers.map fun handler => handler.pc.rank).sum +
    (s.waiters.map WaiterPc.rank).sum

theorem Bus.rank_set {b d : Bus Payload} {ch : Nat}
    {channel new : Channel Payload} (hch : b.topics[ch]? = some channel)
    (htopics : d.topics = b.topics.set ch new) :
    d.rank + channel.rank = b.rank + new.rank := by
  rw [Bus.rank, htopics]
  exact sum_map_set Channel.rank hch new

/-- A move that does not panic pays for what it starts. -/
theorem Moves.rank_lt {b b' : Bus Payload} {waiters : List WaiterPc} {c : Nat}
    {old new : Call} {effect : Effect}
    (h : Moves b waiters c old new b' effect) (hpanic : effect ≠ .panics) :
    new.rank + b'.rank + effect.rank < old.rank + b.rank := by
  cases h with
  | registers topic _ =>
      have hbus : (b.register topic).rank = b.rank + 1 := by
        rw [Bus.rank, Bus.register, List.map_append, List.sum_append]
        rfl
      rw [hbus]
      show 5 + (b.rank + 1) + 0 < 7 + b.rank
      omega
  | closesChannel ctxDone rest ch channel _ hch hopen =>
      have hset := Bus.rank_set (d := b.closeChannel ch channel) hch rfl
      have hold : channel.rank = 2 * channel.buffer.length + 1 := by
        rw [Channel.rank, if_pos hopen]
      have hnew : Channel.rank { channel with closes := channel.closes + 1 } =
          2 * channel.buffer.length := rfl
      show 9 + _ + 0 < 9 + b.rank
      omega
  | closesClosed => exact absurd rfl hpanic
  | publishes => exact Nat.add_lt_add_right (by decide : 0 < 1) b.rank
  | _ =>
      simp only [Call.rank, SubscribePc.rank, ClosePc.rank, Effect.rank,
        Bus.rank, Bus.add]
      omega

/-- What starts is counted. -/
theorem State.rank_after (s : State Payload) (effect : Effect) :
    (s.after effect).rank = s.rank + effect.rank := by
  cases effect with
  | nothing | panics => rfl
  | startsHandler ch =>
      simp only [State.rank, State.after, Effect.rank, List.map_append,
        List.sum_append, List.map_singleton, List.sum_singleton,
        HandlerPc.rank]
      omega
  | startsWaiter =>
      simp only [State.rank, State.after, Effect.rank, List.map_append,
        List.sum_append, List.map_singleton, List.sum_singleton,
        WaiterPc.rank]
      omega

theorem rank_handlerGoto {s : State Payload} {i : Nat}
    {handler : Handler Payload} (hi : s.handlers[i]? = some handler)
    (pc : HandlerPc Payload) :
    (s.handlerGoto i handler pc).rank + handler.pc.rank =
      s.rank + pc.rank := by
  have hsum := sum_map_set
    (fun handler : Handler Payload => handler.pc.rank) hi
    { handler with pc := pc }
  have hpc : ({ handler with pc := pc } : Handler Payload).pc.rank =
      pc.rank := rfl
  simp only [State.rank, State.handlerGoto]
  omega

theorem rank_setWaiter {s : State Payload} {w : Nat} {old : WaiterPc}
    (hw : s.waiters[w]? = some old) (pc : WaiterPc) :
    ({ s with waiters := s.waiters.set w pc } : State Payload).rank +
      old.rank = s.rank + pc.rank := by
  have hsum := sum_map_set WaiterPc.rank hw pc
  simp only [State.rank]
  omega

theorem WaiterPc.rank_release (pc : WaiterPc) :
    pc.release.rank ≤ pc.rank := by
  cases pc <;> decide

theorem sum_rank_release (waiters : List WaiterPc) :
    ((waiters.map WaiterPc.release).map WaiterPc.rank).sum ≤
      (waiters.map WaiterPc.rank).sum := by
  have hwoken := sum_map_map_le WaiterPc.rank (k := 0)
    WaiterPc.rank_release waiters
  omega

/-- **Every step uses up some of the rank.** -/
theorem rank_ownStep {s t : State Payload} {a : Action Payload}
    (h : BusInvariant s) (hstep : OwnStep s a t) : t.rank < s.rank := by
  obtain ⟨hstep, hown⟩ := hstep
  have hrunning := (h.step hstep).running
  cases hstep.2 with
  | publish | subscribe | close | ctxDone | deliver => cases hown
  | move c old new bus effect hc hmove =>
      have hlower := hmove.rank_lt (h.effect_ne_panics hc hmove)
      have hcalls := sum_map_set Call.rank hc new
      rw [State.rank_after]
      simp only [State.rank]
      omega
  | receives i handler channel payload rest hi hpc hch hbuffer =>
      have hgoto := rank_handlerGoto hi (.handling payload)
      have hset := Bus.rank_set
        (d := s.bus.setBuffer handler.ch channel rest) hch rfl
      have hold : channel.rank = Channel.rank { channel with buffer := rest } +
          2 := by
        simp only [Channel.rank, hbuffer, List.length_cons]
        omega
      rw [hpc] at hgoto
      simp only [State.rank, State.handlerGoto, HandlerPc.rank] at hgoto ⊢
      omega
  | handles i handler payload hi hpc =>
      have hgoto := rank_handlerGoto hi .ranging
      rw [hpc] at hgoto
      simp only [HandlerPc.rank] at hgoto
      omega
  | rangeEnds i handler channel hi hpc _ _ _ =>
      have hgoto := rank_handlerGoto hi .finishing
      rw [hpc] at hgoto
      simp only [HandlerPc.rank] at hgoto
      omega
  | finishes i handler hi hpc =>
      have hgoto := rank_handlerGoto hi .exited
      have hreleased := sum_rank_release s.waiters
      rw [hpc] at hgoto
      simp only [State.rank, State.handlerGoto, HandlerPc.rank] at hgoto ⊢
      have hbus : s.bus.finish.rank = s.bus.rank := rfl
      split <;> omega
  | waitReturns w pc hw hpc _ =>
      have hset := rank_setWaiter hw .closingDone
      rcases hpc with rfl | rfl
      · simp only [WaiterPc.rank] at hset
        omega
      · simp only [WaiterPc.rank] at hset
        omega
  | waitSleeps w hw _ =>
      have hset := rank_setWaiter hw .asleep
      simp only [WaiterPc.rank] at hset
      omega
  | waitPanics => cases hrunning
  | closesDone w hw =>
      have hset := rank_setWaiter hw .finished
      simp only [WaiterPc.rank] at hset
      omega

/-! ## Who waits for what -/

/-- The channels that the loop of the `Close` has still to close. -/
def Call.toClose : Call → List Nat
  | .close _ (.closing rest) => rest
  | _ => []

/-- The goroutine that the `Close` waits for. -/
def Call.waiter : Call → Option Nat
  | .close _ (.selecting waiter) => some waiter
  | _ => none

structure WaitInvariant (s : State Payload) : Prop where
  toClose : ∀ call ∈ s.calls, ∀ ch ∈ call.toClose, ch < s.bus.topics.length
  waiter : ∀ call ∈ s.calls, ∀ w, call.waiter = some w → w < s.waiters.length
  /-- No wakeup is lost. -/
  asleep : .asleep ∈ s.waiters → s.bus.wg ≠ 0

theorem waitInvariant_initial (maxChan : Nat) (cfg : Config) :
    WaitInvariant (newEventBus maxChan cfg : State Payload) :=
  ⟨nofun, nofun, nofun⟩

namespace Moves

variable {b b' : Bus Payload} {waiters : List WaiterPc} {c : Nat}
  {old new : Call} {effect : Effect}

theorem length_le (h : Moves b waiters c old new b' effect) :
    b.topics.length ≤ b'.topics.length := by
  cases h with
  | registers topic _ =>
      rw [Bus.register, List.length_append]
      exact Nat.le_add_right _ _
  | closesChannel | closesClosed =>
      rw [Bus.closeChannel, List.length_set]
  | _ => exact Nat.le_refl _

theorem wg_le (h : Moves b waiters c old new b' effect) : b.wg ≤ b'.wg := by
  cases h with
  | adds topic ch => exact Nat.le_succ _
  | _ => exact Nat.le_refl _

theorem mem_toClose (h : Moves b waiters c old new b' effect) {ch : Nat}
    (hch : ch ∈ new.toClose) : ch ∈ old.toClose ∨ ch < b.topics.length := by
  cases h with
  | setsClosed ctxDone => exact .inr (List.mem_range.mp hch)
  | closesChannel ctxDone rest ch' | closesClosed ctxDone rest ch' =>
      exact .inl (List.mem_of_mem_erase hch)
  | _ => cases hch

theorem waiter_cases (h : Moves b waiters c old new b' effect) {w : Nat}
    (hw : new.waiter = some w) :
    effect = .startsWaiter ∧ w = waiters.length := by
  cases h with
  | startsWaiter => exact ⟨rfl, (Option.some.inj hw).symm⟩
  | _ => cases hw

end Moves

namespace WaitInvariant

variable {s t : State Payload} {a : Action Payload}

theorem move (h : WaitInvariant s) {c : Nat} {old new : Call}
    {bus : Bus Payload} {effect : Effect} (hc : s.calls[c]? = some old)
    (hmove : Moves s.bus s.waiters c old new bus effect) :
    WaitInvariant
      ({ s with bus := bus, calls := s.calls.set c new }.after effect) := by
  have hlength := hmove.length_le
  have hwg := hmove.wg_le
  have htoClose : ∀ call ∈ s.calls.set c new, ∀ ch ∈ call.toClose,
      ch < bus.topics.length := by
    refine forall_mem_set (fun call hcall ch hch => ?_) fun ch hch => ?_
    · exact Nat.lt_of_lt_of_le (h.toClose call hcall ch hch) hlength
    · rcases hmove.mem_toClose hch with hch | hlt
      · exact Nat.lt_of_lt_of_le
          (h.toClose old (List.mem_of_getElem? hc) ch hch) hlength
      · exact Nat.lt_of_lt_of_le hlt hlength
  have hasleep : .asleep ∈ s.waiters → bus.wg ≠ 0 := by
    intro hmem
    have hbefore := h.asleep hmem
    omega
  have hwaiter : effect ≠ .startsWaiter → ∀ call ∈ s.calls.set c new, ∀ w,
      call.waiter = some w → w < s.waiters.length := by
    refine fun hne => forall_mem_set h.waiter fun w hw => ?_
    exact absurd (hmove.waiter_cases hw).1 hne
  cases effect with
  | nothing | startsHandler ch | panics =>
      exact ⟨htoClose, hwaiter (by simp), hasleep⟩
  | startsWaiter =>
      refine ⟨htoClose, ?_, fun hmem => ?_⟩
      · show ∀ call ∈ s.calls.set c new, ∀ w, call.waiter = some w →
          w < (s.waiters ++ [WaiterPc.waiting]).length
        rw [List.length_append, List.length_singleton]
        refine forall_mem_set (fun call hcall w hw => ?_) fun w hw => ?_
        · exact Nat.lt_succ_of_lt (h.waiter call hcall w hw)
        · exact Nat.lt_succ_of_le (Nat.le_of_eq (hmove.waiter_cases hw).2)
      · rcases List.mem_append.mp hmem with hmem | hmem
        · exact hasleep hmem
        · cases List.mem_singleton.mp hmem

/-- A waiter goes on. -/
theorem setWaiter (h : WaitInvariant s) (w : Nat) {pc : WaiterPc}
    (hpc : pc = .asleep → s.bus.wg ≠ 0) :
    WaitInvariant { s with waiters := s.waiters.set w pc } where
  toClose := h.toClose
  waiter := by
    show ∀ call ∈ s.calls, ∀ v, call.waiter = some v →
      v < (s.waiters.set w pc).length
    rw [List.length_set]
    exact h.waiter
  asleep := by
    intro hmem
    rcases List.mem_or_eq_of_mem_set hmem with hmem | heq
    · exact h.asleep hmem
    · exact hpc heq.symm

/-- **Every step preserves the invariant.** -/
theorem step (h : WaitInvariant s) (hstep : Step s a t) :
    WaitInvariant t := by
  cases hstep.2 with
  | publish | subscribe | close =>
      exact ⟨forall_mem_concat h.toClose nofun,
        forall_mem_concat h.waiter nofun, h.asleep⟩
  | ctxDone c ctxDone pc hc =>
      have hold := List.mem_of_getElem? hc
      have htoClose := h.toClose _ hold
      have hwaiter := h.waiter _ hold
      exact ⟨forall_mem_set h.toClose (by cases pc <;> exact htoClose),
        forall_mem_set h.waiter (by cases pc <;> exact hwaiter), h.asleep⟩
  | move c old new bus effect hc hmove => exact h.move hc hmove
  | deliver ch payload channel hch _ _ =>
      refine ⟨?_, h.waiter, h.asleep⟩
      show ∀ call ∈ s.calls, ∀ i ∈ call.toClose,
        i < (s.bus.topics.set ch _).length
      rw [List.length_set]
      exact h.toClose
  | receives i handler channel payload rest hi _ hch _ =>
      refine ⟨?_, h.waiter, h.asleep⟩
      show ∀ call ∈ s.calls, ∀ i ∈ call.toClose,
        i < (s.bus.topics.set handler.ch _).length
      rw [List.length_set]
      exact h.toClose
  | handles | rangeEnds => exact ⟨h.toClose, h.waiter, h.asleep⟩
  | finishes i handler hi hpc =>
      refine ⟨h.toClose, ?_, ?_⟩
      · show ∀ call ∈ s.calls, ∀ w, call.waiter = some w →
          w < (if s.bus.finish.wg = 0 then s.waiters.map WaiterPc.release
            else s.waiters).length
        split
        next =>
          rw [List.length_map]
          exact h.waiter
        next => exact h.waiter
      · show .asleep ∈ (if s.bus.finish.wg = 0 then
          s.waiters.map WaiterPc.release else s.waiters) →
            s.bus.finish.wg ≠ 0
        split
        next =>
          intro hmem
          obtain ⟨pc, -, hpc⟩ := List.mem_map.mp hmem
          cases pc <;> cases hpc
        next hne => exact fun _ => hne
  | waitReturns w => exact h.setWaiter w nofun
  | waitSleeps w _ hne => exact h.setWaiter w fun _ => hne
  | waitPanics => exact ⟨h.toClose, h.waiter, h.asleep⟩
  | closesDone w => exact h.setWaiter w nofun

end WaitInvariant

/-! ## Who panics -/

/-- The panic of `make` unwinds the `Subscribe`, or has. -/
def Call.refused : Call → Bool
  | .subscribe _ .panicking => true
  | .subscribe _ .panicked => true
  | _ => false

/-- The configuration stays as it was given, and `make` refuses only buffers
that are too large. -/
structure MakeInvariant (maxChan : Nat) (cfg : Config) (s : State Payload) :
    Prop where
  maxChan_eq : s.bus.maxChan = maxChan
  cfg_eq : s.bus.cfg = cfg.withDefaults
  refused : ∀ call ∈ s.calls, call.refused = true →
    maxChan < cfg.withDefaults.bufferPerTopic

theorem makeInvariant_initial (maxChan : Nat) (cfg : Config) :
    MakeInvariant maxChan cfg (newEventBus maxChan cfg : State Payload) :=
  ⟨rfl, rfl, nofun⟩

theorem Moves.maxChan_eq {b b' : Bus Payload} {waiters : List WaiterPc}
    {c : Nat} {old new : Call} {effect : Effect}
    (h : Moves b waiters c old new b' effect) : b'.maxChan = b.maxChan := by
  cases h <;> rfl

/-- A `Subscribe` begins to panic where the buffer is too large. -/
theorem Moves.refused {b b' : Bus Payload} {waiters : List WaiterPc}
    {c : Nat} {old new : Call} {effect : Effect}
    (h : Moves b waiters c old new b' effect) (hnew : new.refused = true) :
    old.refused = true ∨ b.maxChan < b.cfg.bufferPerTopic := by
  cases h with
  | makePanics topic hlarge => exact .inr hlarge
  | panicUnlocks => exact .inl rfl
  | _ => cases hnew

theorem State.calls_after (s : State Payload) (effect : Effect) :
    (s.after effect).calls = s.calls := by
  cases effect <;> rfl

theorem State.bus_after (s : State Payload) (effect : Effect) :
    (s.after effect).bus = s.bus := by
  cases effect <;> rfl

namespace MakeInvariant

variable {maxChan : Nat} {cfg : Config} {s t : State Payload}
  {a : Action Payload}

/-- **Every step preserves the invariant.** -/
theorem step (h : MakeInvariant maxChan cfg s) (hstep : Step s a t) :
    MakeInvariant maxChan cfg t := by
  cases hstep.2 with
  | publish | subscribe | close =>
      exact { h with refused := forall_mem_concat h.refused nofun }
  | ctxDone c ctxDone pc hc =>
      exact { h with refused := forall_mem_set h.refused nofun }
  | move c old new bus effect hc hmove =>
      refine ⟨?_, ?_, ?_⟩
      · rw [State.bus_after]
        exact hmove.maxChan_eq.trans h.maxChan_eq
      · rw [State.bus_after]
        exact hmove.cfg_eq.trans h.cfg_eq
      · rw [State.calls_after]
        refine forall_mem_set h.refused fun hnew => ?_
        rcases hmove.refused hnew with hold | hlarge
        · exact h.refused old (List.mem_of_getElem? hc) hold
        · rwa [h.maxChan_eq, h.cfg_eq] at hlarge
  | _ => exact { h with }

end MakeInvariant

/-! ## The bus at rest -/

def Call.hasReturned : Call → Bool
  | .published _ => true
  | .subscribe _ (.returned _) => true
  | .close _ (.returned _) => true
  | _ => false

/-- All calls have returned, each goroutine waits at its channel or has ended,
and everything sent was handled.  After a `Close` all goroutines have ended.
Instead of returning a `Subscribe` has panicked if `make` refuses the buffer of
a topic. -/
structure Settled (maxChan : Nat) (cfg : Config)
    (p : State Payload × List (Passage Payload)) : Prop where
  returned : ∀ call ∈ p.1.calls, call.hasReturned = true ∨
    ∃ topic, call = .subscribe topic .panicked
  panicked : ∀ topic, .subscribe topic .panicked ∈ p.1.calls →
    maxChan < cfg.withDefaults.bufferPerTopic
  handlers : ∀ handler ∈ p.1.handlers,
    handler.pc = .ranging ∨ handler.pc = .exited
  drained : ∀ ch, p.2.filterMap (Passage.sentTo ch) =
    p.2.filterMap (Passage.takenFrom ch)
  closed : ∀ ctxDone pc, .close ctxDone pc ∈ p.1.calls →
    (∀ handler ∈ p.1.handlers, handler.pc = .exited) ∧
      ∀ pc ∈ p.1.waiters, pc = .finished

/-- No call and no goroutine can move. -/
def Stuck (s : State Payload) : Prop := ∀ a t, ¬ OwnStep s a t

namespace Stuck

variable {s : State Payload} {record : List (Passage Payload)} {c : Nat}
  {old new : Call} {bus : Bus Payload} {effect : Effect}

theorem no_rule (hstuck : Stuck s) (h : BusInvariant s)
    {a : Action Payload} {t : State Payload} (hrule : Rule s a t)
    (hown : a.own = true) : False :=
  hstuck a t ⟨⟨h.running, hrule⟩, hown⟩

theorem no_move (hstuck : Stuck s) (h : BusInvariant s)
    (hc : s.calls[c]? = some old)
    (hmove : Moves s.bus s.waiters c old new bus effect) : False :=
  hstuck.no_rule h (.move s c old new bus effect hc hmove) rfl

/-- Whoever has the mutex can move, so it is free. -/
theorem mu_free (hstuck : Stuck s) (h : BusInvariant s)
    (hwait : WaitInvariant s) : s.bus.mu = none := by
  cases hmu : s.bus.mu with
  | none => rfl
  | some c =>
      exfalso
      have hholds := (h.mu c).mpr hmu
      rw [List.getElem?_map, Option.map_eq_some_iff] at hholds
      obtain ⟨call, hc, hholds⟩ := hholds
      cases call with
      | publish | published => cases hholds
      | subscribe topic pc =>
          cases pc with
          | locking | returned | panicked => cases hholds
          | checkingClosed =>
              cases hclosed : s.bus.closed with
              | true => exact hstuck.no_move h hc (.findsClosed topic hclosed)
              | false => exact hstuck.no_move h hc (.findsOpen topic hclosed)
          | checkingLimit =>
              by_cases hlimit : s.bus.cfg.maxSubscribersPerTopic ≤
                s.bus.subscribers topic
              · exact hstuck.no_move h hc (.limitReached topic hlimit)
              · exact hstuck.no_move h hc
                  (.belowLimit topic (Int.not_le.mp hlimit))
          | registering =>
              by_cases hfits : s.bus.cfg.bufferPerTopic ≤ s.bus.maxChan
              · exact hstuck.no_move h hc (.registers topic hfits)
              · exact hstuck.no_move h hc
                  (.makePanics topic (Int.not_le.mp hfits))
          | panicking => exact hstuck.no_move h hc (.panicUnlocks topic)
          | adding ch => exact hstuck.no_move h hc (.adds topic ch)
          | starting ch => exact hstuck.no_move h hc (.starts topic ch)
          | unlocking err =>
              exact hstuck.no_move h hc (.subscribeUnlocks topic err)
      | close ctxDone pc =>
          cases pc with
          | settingClosed => exact hstuck.no_move h hc (.setsClosed ctxDone)
          | unlocking => exact hstuck.no_move h hc (.closeUnlocks ctxDone)
          | closing rest =>
              have hmem := List.mem_of_getElem? hc
              have hclosing := h.calls _ hmem
              cases rest with
              | nil => exact hstuck.no_move h hc (.closedAll ctxDone)
              | cons ch rest =>
                  have hfirst : ch ∈ ch :: rest := List.mem_cons_self
                  have hlt := hwait.toClose _ hmem ch hfirst
                  have hch := List.getElem?_eq_getElem hlt
                  have hopen := hclosing.closes ch _ hch
                  rw [if_pos hfirst] at hopen
                  exact hstuck.no_move h hc
                    (.closesChannel ctxDone _ ch _ hfirst hch hopen)
          | _ => cases hholds

/-- No `Close` is inside `once.Do`. -/
theorem outsideOnce (hstuck : Stuck s) (h : BusInvariant s)
    (hwait : WaitInvariant s) {call : Call} (hcall : call ∈ s.calls) :
    call.insideOnce = false := by
  obtain ⟨c, hc⟩ := List.mem_iff_getElem?.mp hcall
  have hfree := hstuck.mu_free h hwait
  have hholds : call.holdsMu ≠ true := fun hholds => by
    cases hfree.symm.trans (h.mu.owner_of_holds hc hholds)
  cases call with
  | close ctxDone pc =>
      cases pc with
      | locking => exact (hstuck.no_move h hc (.closeLocks ctxDone hfree)).elim
      | leavingOnce => exact (hstuck.no_move h hc (.leavesOnce ctxDone)).elim
      | settingClosed | closing | unlocking => exact absurd rfl hholds
      | _ => rfl
  | _ => rfl

/-- A goroutine has ended, or waits at an open and empty channel. -/
theorem handler_cases (hstuck : Stuck s) (h : DrainInvariant (s, record))
    {handler : Handler Payload} (hhandler : handler ∈ s.handlers) :
    handler.pc = .exited ∨
      (handler.pc = .ranging ∧ ¬ s.bus.IsClosed handler.ch ∧
        s.bus.bufferOf handler.ch = []) := by
  obtain ⟨i, hi⟩ := List.mem_iff_getElem?.mp hhandler
  cases hpc : handler.pc with
  | exited => exact .inl rfl
  | handling payload =>
      exact (hstuck.no_rule h.bus (.handles s i handler payload hi hpc)
        rfl).elim
  | finishing =>
      exact (hstuck.no_rule h.bus (.finishes s i handler hi hpc) rfl).elim
  | ranging =>
      have howned : s.owned.Perm (List.range s.bus.topics.length) := h.owned
      have hmem : handler.ch ∈ s.owned :=
        List.mem_append_left _ (List.mem_map_of_mem hhandler)
      have hlt := List.mem_range.mp (howned.mem_iff.mp hmem)
      have hch := List.getElem?_eq_getElem hlt
      cases hbuffer : s.bus.topics[handler.ch].buffer with
      | cons payload rest =>
          exact (hstuck.no_rule h.bus
            (.receives s i handler _ payload rest hi hpc hch hbuffer)
            rfl).elim
      | nil =>
          refine .inr ⟨rfl, fun hclosed => ?_,
            (Bus.bufferOf_eq hch).trans hbuffer⟩
          obtain ⟨channel, hchannel, hcloses⟩ := hclosed
          obtain rfl := Option.some.inj (hch.symm.trans hchannel)
          exact hstuck.no_rule h.bus
            (.rangeEnds s i handler _ hi hpc hch hbuffer hcloses) rfl

/-- Once `once` is done, all goroutines of the subscribers have ended. -/
theorem exited_of_done (hstuck : Stuck s) (h : DrainInvariant (s, record))
    (hdone : s.bus.once = .done) :
    ∀ handler ∈ s.handlers, handler.pc = .exited := by
  intro handler hhandler
  rcases hstuck.handler_cases h hhandler with hexited | ⟨-, hopen, -⟩
  · exact hexited
  · refine absurd ?_ hopen
    have howned : s.owned.Perm (List.range s.bus.topics.length) := h.owned
    have hmem : handler.ch ∈ s.owned :=
      List.mem_append_left _ (List.mem_map_of_mem hhandler)
    have hlt := List.mem_range.mp (howned.mem_iff.mp hmem)
    refine ⟨_, List.getElem?_eq_getElem hlt, ?_⟩
    rw [(h.bus.done hdone).closes _ (List.getElem_mem hlt)]
    exact Nat.one_ne_zero

/-- Once `once` is done, the wait group is at zero. -/
theorem wg_eq_zero (hstuck : Stuck s) (h : DrainInvariant (s, record))
    (hwait : WaitInvariant s) (hdone : s.bus.once = .done) :
    s.bus.wg = 0 := by
  have hcount : s.bus.wg = s.handlers.countP Handler.remains +
    s.calls.countP Call.added := h.bus.wg_eq
  have hhandlers : s.handlers.countP Handler.remains = 0 := by
    rw [List.countP_eq_zero]
    intro handler hhandler
    rw [Handler.remains, hstuck.exited_of_done h hdone handler hhandler]
    exact Bool.false_ne_true
  have hcalls : s.calls.countP Call.added = 0 := by
    rw [List.countP_eq_zero]
    intro call hcall hadded
    obtain ⟨c, hc⟩ := List.mem_iff_getElem?.mp hcall
    have hholds : call.holdsMu = true := by
      cases call with
      | subscribe topic pc => cases pc <;> first | rfl | cases hadded
      | _ => cases hadded
    cases (hstuck.mu_free h.bus hwait).symm.trans
      (h.bus.mu.owner_of_holds hc hholds)
  rw [hcount, hhandlers, hcalls]

theorem waiter_finished (hstuck : Stuck s) (h : DrainInvariant (s, record))
    (hwait : WaitInvariant s) {pc : WaiterPc} (hpc : pc ∈ s.waiters) :
    pc = .finished := by
  obtain ⟨w, hw⟩ := List.mem_iff_getElem?.mp hpc
  have hzero := hstuck.wg_eq_zero h hwait (h.bus.waiters pc hpc).1
  cases pc with
  | waiting =>
      exact (hstuck.no_rule h.bus (.waitReturns s w _ hw (.inl rfl) hzero)
        rfl).elim
  | released =>
      exact (hstuck.no_rule h.bus (.waitReturns s w _ hw (.inr rfl) hzero)
        rfl).elim
  | asleep => exact absurd hzero (hwait.asleep hpc)
  | closingDone =>
      exact (hstuck.no_rule h.bus (.closesDone s w hw) rfl).elim
  | finished => rfl

/-- `once.Do` lets the next `Close` in, or past. -/
theorem once_cases (hstuck : Stuck s) (h : BusInvariant s)
    (hwait : WaitInvariant s) : s.bus.once = .fresh ∨ s.bus.once = .done := by
  cases honce : s.bus.once with
  | fresh => exact .inl rfl
  | done => exact .inr rfl
  | running c =>
      exfalso
      have hrunner : s.bus.once.runner = some c := by
        rw [honce]
        rfl
      have hinside := (h.once c).mpr hrunner
      rw [List.getElem?_map, Option.map_eq_some_iff] at hinside
      obtain ⟨call, hc, hinside⟩ := hinside
      rw [hstuck.outsideOnce h hwait (List.mem_of_getElem? hc)] at hinside
      cases hinside

theorem returned (hstuck : Stuck s) (h : DrainInvariant (s, record))
    (hwait : WaitInvariant s) {call : Call} (hcall : call ∈ s.calls) :
    call.hasReturned = true ∨ ∃ topic, call = .subscribe topic .panicked := by
  obtain ⟨c, hc⟩ := List.mem_iff_getElem?.mp hcall
  have hfree := hstuck.mu_free h.bus hwait
  have hholds : call.holdsMu ≠ true := fun hholds => by
    cases hfree.symm.trans (h.bus.mu.owner_of_holds hc hholds)
  have houtside := hstuck.outsideOnce h.bus hwait hcall
  cases call with
  | publish topic =>
      exact (hstuck.no_move h.bus hc (.publishes topic hfree)).elim
  | published err => exact .inl rfl
  | subscribe topic pc =>
      cases pc with
      | locking =>
          exact (hstuck.no_move h.bus hc (.subscribeLocks topic hfree)).elim
      | returned err => exact .inl rfl
      | panicked => exact .inr ⟨topic, rfl⟩
      | _ => exact absurd rfl hholds
  | close ctxDone pc =>
      cases pc with
      | once =>
          rcases hstuck.once_cases h.bus hwait with honce | honce
          · exact (hstuck.no_move h.bus hc (.entersOnce ctxDone honce)).elim
          · exact (hstuck.no_move h.bus hc (.skipsOnce ctxDone honce)).elim
      | startingWaiter =>
          exact (hstuck.no_move h.bus hc (.startsWaiter ctxDone)).elim
      | selecting w =>
          have hw := List.getElem?_eq_getElem (hwait.waiter _ hcall w rfl)
          have hfinished :=
            hstuck.waiter_finished h hwait (List.mem_of_getElem? hw)
          rw [hfinished] at hw
          exact (hstuck.no_move h.bus hc (.closeReturns ctxDone w hw)).elim
      | returned err => exact .inl rfl
      | _ => cases houtside

/-- Every channel has a goroutine, which has emptied it. -/
theorem bufferOf_eq_nil (hstuck : Stuck s) (h : DrainInvariant (s, record))
    (hwait : WaitInvariant s) (ch : Nat) : s.bus.bufferOf ch = [] := by
  by_cases hlt : ch < s.bus.topics.length
  · have howned : s.owned.Perm (List.range s.bus.topics.length) := h.owned
    have hmem := howned.mem_iff.mpr (List.mem_range.mpr hlt)
    rcases List.mem_append.mp hmem with hmem | hmem
    · obtain ⟨handler, hhandler, rfl⟩ := List.mem_map.mp hmem
      rcases hstuck.handler_cases h hhandler with hexited | ⟨-, -, hempty⟩
      · exact (h.left handler hhandler (by rw [hexited]; rfl)).2
      · exact hempty
    · obtain ⟨call, hcall, hregistering⟩ := List.mem_filterMap.mp hmem
      rcases hstuck.returned h hwait hcall with hreturned | ⟨topic, rfl⟩
      · cases call with
        | subscribe topic pc =>
            cases pc with
            | returned err => cases hregistering
            | _ => cases hreturned
        | _ => cases hregistering
      · cases hregistering
  · rw [Bus.bufferOf, List.getElem?_eq_none (Nat.not_lt.mp hlt)]
    rfl

end Stuck

theorem Stuck.settled {maxChan : Nat} {cfg : Config}
    {p : State Payload × List (Passage Payload)}
    (hstuck : Stuck p.1) (h : DrainInvariant p) (hwait : WaitInvariant p.1)
    (hmake : MakeInvariant maxChan cfg p.1) : Settled maxChan cfg p := by
  obtain ⟨s, record⟩ := p
  refine ⟨fun _ hcall => hstuck.returned h hwait hcall,
    fun topic hcall => hmake.refused _ hcall rfl,
    fun handler hhandler => ?_, fun ch => ?_, fun ctxDone pc hcall => ?_⟩
  · rcases hstuck.handler_cases h hhandler with hexited | ⟨hranging, -, -⟩
    · exact .inr hexited
    · exact .inl hranging
  · have hfifo : record.filterMap (Passage.sentTo ch) =
      record.filterMap (Passage.takenFrom ch) ++ s.bus.bufferOf ch := h.fifo ch
    rwa [hstuck.bufferOf_eq_nil h hwait ch, List.append_nil] at hfifo
  · have hdone : s.bus.once = .done := by
      rcases hstuck.returned h hwait hcall with hback | ⟨topic, hsub⟩
      · cases pc with
        | returned err => exact h.bus.once_of_passedOnce hcall rfl
        | _ => cases hback
      · cases hsub
    exact ⟨hstuck.exited_of_done h hdone,
      fun pc hpc => hstuck.waiter_finished h hwait hpc⟩

/-- **The event bus settles.**  For every configuration, from every reachable
state with its record: when no further call begins, nothing more is sent, no
context expires and the handlers return, every schedule comes to a state in
which all calls have returned and everything sent was handled; if there was a
`Close`, all subscriber goroutines and all waiters have ended by then.  A
`Subscribe` that panics instead, which its caller recovers, does so because
`make` refuses `BufferPerTopic`. -/
theorem event_bus_settles (maxChan : Nat) (cfg : Config)
    {p : State Payload × List (Passage Payload)}
    (hp : Reaches (Recording Step State.passages)
      (newEventBus maxChan cfg, []) p) :
    Inevitable (Recording OwnStep State.passages) (Settled maxChan cfg) p := by
  let I := fun q : State Payload × List (Passage Payload) =>
    DrainInvariant q ∧ WaitInvariant q.1 ∧ MakeInvariant maxChan cfg q.1
  have hstep : ∀ q a r, I q → Recording Step State.passages q a r → I r :=
    fun _ _ _ ⟨hdrain, hwait, hmake⟩ hqr =>
      ⟨hdrain.step hqr, hwait.step hqr.1, hmake.step hqr.1⟩
  have hinitial : I p := hp.invariant hstep
    ⟨drainInvariant_initial maxChan cfg, waitInvariant_initial maxChan cfg,
      makeInvariant_initial maxChan cfg⟩
  refine .of_rank (fun q => q.1.rank)
    (fun q a r hq hqr => hstep q a r hq ⟨hqr.1.1, hqr.2⟩)
    (fun _ _ _ hq hqr => rank_ownStep hq.1.bus hqr.1) (fun q hq hopen => ?_)
    hinitial
  obtain ⟨hdrain, hwait, hmake⟩ := hq
  by_contra hrest
  have hstuck : Stuck q.1 := fun a t hmove =>
    hrest ⟨a, (t, _), hmove, rfl⟩
  exact hopen (hstuck.settled hdrain hwait hmake)

/-- A `Close` begins while a payload is in the channel. -/
theorem event_bus_settles_one :
    Inevitable (Recording OwnStep State.passages) (Settled 64 ⟨0, 0⟩)
      ({ sentOne with
        calls := [.subscribe "a" (.returned none), .close false .once] },
        [.sent 0 "x"]) :=
  event_bus_settles _ _ (reaches_sentOne.record ⟨rfl, .close _⟩)

end GoPrep.Ports.EventBus
