import GoPrep.Ports.EventBusInvariant

/-!
# How the event bus shuts down

Once the first phase of `Close` is over, nothing registers and nothing is
added to the wait group any more; so what a wait has seen stays true.

## Main results

* `BusInvariant.sealed_of_reaches` — from then on the channels are closed and
  stay so, and no handler is started.
* `event_bus_shutdown` — the limit, the closes, the sealing and the returns of
  `Close` in every reachable state.
-/

namespace GoPrep.Ports.EventBus

open GoPrep.Verified.ThreadTable
open GoPrep.Verified.Transition

variable {Payload : Type}

/-! ## After the first phase -/

/-- The channels and goroutines of `t` are those of `s`. -/
def Sealed (s t : State Payload) : Prop :=
  t.bus.once = .done ∧
    t.bus.topics.map (fun channel => (channel.topic, channel.closes)) =
      s.bus.topics.map (fun channel => (channel.topic, channel.closes)) ∧
    t.handlers.map Handler.ch = s.handlers.map Handler.ch

namespace BusInvariant

variable {s : State Payload}

theorem once_of_passedOnce (h : BusInvariant s) {call : Call}
    (hcall : call ∈ s.calls) (hpassed : call.passedOnce = true) :
    s.bus.once = .done := by
  have hok := h.calls call hcall
  match call with
  | .close _ .startingWaiter => exact hok
  | .close _ (.selecting _) => exact hok
  | .close _ (.returned none) => exact hok.1
  | .close _ (.returned (some _)) => exact hok

/-- **After `once` is done no step adds a channel, a goroutine or to the wait
group.** -/
theorem step_of_done (h : BusInvariant s) (hdone : s.bus.once = .done)
    {a : Action Payload} {t : State Payload} (hstep : Step s a t) :
    Sealed s t ∧ t.bus.wg ≤ s.bus.wg := by
  have hgoto : ∀ {i : Nat} {handler : Handler Payload}
      (pc : HandlerPc Payload), s.handlers[i]? = some handler →
      (s.handlerGoto i handler pc).handlers.map Handler.ch =
        s.handlers.map Handler.ch :=
    fun pc hi => map_set_of_eq Handler.ch hi rfl
  have hbuffer : ∀ {ch : Nat} {channel : Channel Payload}
      (buffer : List Payload), s.bus.topics[ch]? = some channel →
      (s.bus.setBuffer ch channel buffer).topics.map
          (fun channel => (channel.topic, channel.closes)) =
        s.bus.topics.map fun channel => (channel.topic, channel.closes) :=
    fun buffer hch => (quiet_setBuffer hch buffer).topics
  cases hstep.2 with
  | move c old new bus effect hc hmove =>
      have hquiet := h.done_move hc hmove hdone
      have hold := h.calls old (List.mem_of_getElem? hc)
      have hclosed := (h.done hdone).closed
      cases effect with
      | startsHandler ch =>
          cases hmove with
          | starts => exact absurd (hclosed.symm.trans hold) (by simp)
      | _ => exact ⟨⟨hquiet.done hdone, hquiet.topics, rfl⟩, hquiet.wg_le⟩
  | deliver ch payload channel hch _ _ =>
      exact ⟨⟨hdone, hbuffer _ hch, rfl⟩, Nat.le_refl _⟩
  | receives i handler channel payload rest hi hpc hch _ =>
      exact ⟨⟨hdone, hbuffer _ hch, hgoto _ hi⟩, Nat.le_refl _⟩
  | handles i handler payload hi _ =>
      exact ⟨⟨hdone, rfl, hgoto _ hi⟩, Nat.le_refl _⟩
  | rangeEnds i handler channel hi _ _ _ _ =>
      exact ⟨⟨hdone, rfl, hgoto _ hi⟩, Nat.le_refl _⟩
  | finishes i handler hi _ =>
      exact ⟨⟨hdone, rfl, hgoto _ hi⟩, Nat.sub_le _ _⟩
  | _ => exact ⟨⟨hdone, rfl, rfl⟩, Nat.le_refl _⟩

theorem sealed_of_reaches (h : BusInvariant s) (hdone : s.bus.once = .done)
    {t : State Payload} (ht : Reaches Step s t) : Sealed s t := by
  have hboth : BusInvariant t ∧ Sealed s t := by
    refine ht.invariant (I := fun t => BusInvariant t ∧ Sealed s t)
      (fun t a u ⟨hinv, honce, htopics, hhandlers⟩ hstep => ?_)
      ⟨h, hdone, rfl, rfl⟩
    obtain ⟨hafter, -⟩ := hinv.step_of_done honce hstep
    exact ⟨hinv.step hstep, hafter.1, hafter.2.1.trans htopics,
      hafter.2.2.trans hhandlers⟩
  exact hboth.2

end BusInvariant

/-- What is known of the shutdown in a state. -/
structure ShutsDown (s : State Payload) : Prop where
  limit : ∀ topic,
    (s.bus.subscribers topic : Int) ≤ s.bus.cfg.maxSubscribersPerTopic
  /-- No channel was closed twice, and no `wg.Wait` found the counter moved. -/
  running : s.crashed = false
  closedOnce : ∀ call ∈ s.calls, call.passedOnce = true →
    ∀ channel ∈ s.bus.topics, channel.closes = 1
  sealed : ∀ call ∈ s.calls, call.passedOnce = true →
    ∀ t, Reaches Step s t → Sealed s t
  /-- Once a wait may have started there is no `wg.Add`. -/
  noAdd : s.waiters ≠ [] → ∀ a t, Step s a t → t.bus.wg ≤ s.bus.wg
  exited : ∀ ctxDone, .close ctxDone (.returned none) ∈ s.calls →
    ∀ handler ∈ s.handlers, handler.pc = .exited

/-- **The event bus shuts down.**  In every state reachable by any interleaving
of `Subscribe`, `Publish` and `Close` calls, expiring contexts and handlers: no
topic is over its limit; once a `Close` has passed its `once.Do` every channel
has been closed exactly once, and no channel and no goroutine is added any
more; no `wg.Add` follows the start of a wait; and once a `Close` has returned
nil every subscriber goroutine has exited. -/
theorem event_bus_shutdown (maxChan : Nat) (cfg : Config) {s : State Payload}
    (hs : Reaches Step (newEventBus maxChan cfg) s) : ShutsDown s := by
  have hinv := hs.invariant (fun _ _ _ h hstep => h.step hstep)
    (busInvariant_initial maxChan cfg)
  refine ⟨hinv.limit, hinv.running, ?_, ?_, ?_, ?_⟩
  · intro call hcall hpassed
    exact (hinv.done (hinv.once_of_passedOnce hcall hpassed)).closes
  · intro call hcall hpassed t ht
    exact hinv.sealed_of_reaches (hinv.once_of_passedOnce hcall hpassed) ht
  · intro hwaiters a t hstep
    obtain ⟨pc, hpc⟩ := List.exists_mem_of_ne_nil _ hwaiters
    exact (hinv.step_of_done (hinv.waiters pc hpc).1 hstep).2
  · intro ctxDone hreturned handler hhandler
    have hzero := (hinv.calls _ hreturned).2
    have hcount := hinv.wg_eq
    have hnone : s.handlers.countP Handler.remains = 0 := by omega
    have hexited := List.countP_eq_zero.mp hnone handler hhandler
    unfold Handler.remains at hexited
    cases hpc : handler.pc with
    | exited => rfl
    | _ => rw [hpc] at hexited; exact absurd rfl hexited

/-- One subscriber, whose goroutine exits while the `Close` waits for it. -/
theorem event_bus_shutdown_one :
    ∃ s : State Unit, Reaches Step (newEventBus 64 ⟨0, 0⟩) s ∧ ShutsDown s ∧
      s.calls = [.subscribe "a" (.returned none),
        .close false (.returned none)] ∧
      s.bus.topics = [⟨"a", [], 1⟩] ∧ s.handlers = [⟨0, .exited⟩] := by
  have hbegun : Step (newEventBus 64 ⟨0, 0⟩ : State Unit) (.subscribe "a") _ :=
    ⟨rfl, .subscribe _ "a"⟩
  have hchecked := (((Reaches.single hbegun).tail
    ⟨rfl, .move _ 0 _ _ _ _ rfl (.subscribeLocks _ rfl)⟩).tail
    ⟨rfl, .move _ 0 _ _ _ _ rfl (.findsOpen _ rfl)⟩).tail
    ⟨rfl, .move _ 0 _ _ _ _ rfl (.belowLimit _ (by decide))⟩
  have hsubscribed := (((hchecked.tail
    ⟨rfl, .move _ 0 _ _ _ _ rfl (.registers _ (by decide))⟩).tail
    ⟨rfl, .move _ 0 _ _ _ _ rfl (.adds _ _)⟩).tail
    ⟨rfl, .move _ 0 _ _ _ _ rfl (.starts _ _)⟩).tail
    ⟨rfl, .move _ 0 _ _ _ _ rfl (.subscribeUnlocks _ _)⟩
  have hclosing := (((hsubscribed.tail ⟨rfl, .close _⟩).tail
    ⟨rfl, .move _ 1 _ _ _ _ rfl (.entersOnce _ rfl)⟩).tail
    ⟨rfl, .move _ 1 _ _ _ _ rfl (.closeLocks _ rfl)⟩).tail
    ⟨rfl, .move _ 1 _ _ _ _ rfl (.setsClosed _)⟩
  have hclosed := (((hclosing.tail
    ⟨rfl, .move _ 1 _ _ _ _ rfl
      (.closesChannel _ [0] 0 _ (by decide) rfl rfl)⟩).tail
    ⟨rfl, .move _ 1 _ _ _ _ rfl (.closedAll _)⟩).tail
    ⟨rfl, .move _ 1 _ _ _ _ rfl (.closeUnlocks _)⟩).tail
    ⟨rfl, .move _ 1 _ _ _ _ rfl (.leavesOnce _)⟩
  have hwaiting := (hclosed.tail
    ⟨rfl, .move _ 1 _ _ _ _ rfl (.startsWaiter _)⟩).tail
    ⟨rfl, .waitSleeps _ 0 rfl (by decide)⟩
  have hexited := (hwaiting.tail
    ⟨rfl, .rangeEnds _ 0 _ _ rfl rfl rfl rfl (by decide)⟩).tail
    ⟨rfl, .finishes _ 0 _ rfl rfl⟩
  have hreturned := ((hexited.tail
    ⟨rfl, .waitReturns _ 0 _ rfl (.inr rfl) rfl⟩).tail
    ⟨rfl, .closesDone _ 0 rfl⟩).tail
    ⟨rfl, .move _ 1 _ _ _ _ rfl (.closeReturns _ 0 rfl)⟩
  exact ⟨_, hreturned, event_bus_shutdown _ _ hreturned, rfl, rfl, rfl⟩

end GoPrep.Ports.EventBus
