import GoPrep.Ports.EventBus

/-!
# What holds of the event bus in every interleaving

The first phase of `Close` runs once, and the closed check, the registration
and the `wg.Add` of a `Subscribe` stand in one critical section with it.  So a
`Subscribe` that gets as far as its registration is done with all three before
any channel is closed, and a wait begins after the last `wg.Add`.

## Main results

* `Bus.Quiet.ok` — what a call relies on survives changes that keep the
  channels, the flags and the zero of the wait group.
* `BusInvariant.step` — every step keeps the invariant.
-/

namespace GoPrep.Ports.EventBus

open GoPrep.Verified.ThreadTable
open GoPrep.Verified.Transition

variable {Payload : Type}

/-! ## What holds where a call stands -/

namespace Bus

/-- No channel has been closed yet, nor the bus. -/
structure Unclosed (b : Bus Payload) : Prop where
  closed : b.closed = false
  closes : ∀ channel ∈ b.topics, channel.closes = 0

/-- The loop of `Close` has closed the channels outside `rest`. -/
structure Closing (b : Bus Payload) (rest : List Nat) : Prop where
  closed : b.closed = true
  nodup : rest.Nodup
  closes : ∀ ch channel, b.topics[ch]? = some channel →
    channel.closes = if ch ∈ rest then 0 else 1

structure AllClosed (b : Bus Payload) : Prop where
  closed : b.closed = true
  closes : ∀ channel ∈ b.topics, channel.closes = 1

end Bus

namespace Call

def holdsMu : Call → Bool
  | .subscribe _ .locking => false
  | .subscribe _ (.returned _) => false
  | .subscribe _ .panicked => false
  | .subscribe _ _ => true
  | .close _ .settingClosed => true
  | .close _ (.closing _) => true
  | .close _ .unlocking => true
  | _ => false

/-- The call is inside `once.Do`. -/
def insideOnce : Call → Bool
  | .close _ .locking => true
  | .close _ .settingClosed => true
  | .close _ (.closing _) => true
  | .close _ .unlocking => true
  | .close _ .leavingOnce => true
  | _ => false

/-- The call is a `Close` that has passed its `once.Do`. -/
def passedOnce : Call → Bool
  | .close _ .startingWaiter => true
  | .close _ (.selecting _) => true
  | .close _ (.returned _) => true
  | _ => false

/-- The call is between its `wg.Add(1)` and the start of its goroutine. -/
def added : Call → Bool
  | .subscribe _ (.starting _) => true
  | _ => false

/-- What is known of the bus where a call stands. -/
def Ok (b : Bus Payload) : Call → Prop
  | .subscribe _ .checkingLimit => b.closed = false
  | .subscribe topic .registering => b.closed = false ∧
      (b.subscribers topic : Int) < b.cfg.maxSubscribersPerTopic
  | .subscribe _ (.adding _) => b.closed = false
  | .subscribe _ (.starting _) => b.closed = false
  | .close _ .locking => b.Unclosed
  | .close _ .settingClosed => b.Unclosed
  | .close _ (.closing rest) => b.Closing rest
  | .close _ .unlocking => b.AllClosed
  | .close _ .leavingOnce => b.AllClosed
  | .close _ (.returned none) => b.once = .done ∧ b.wg = 0
  | .close _ .startingWaiter => b.once = .done
  | .close _ (.selecting _) => b.once = .done
  | .close _ (.returned (some _)) => b.once = .done
  | _ => True

end Call

/-- The goroutine has not run its deferred `wg.Done()`. -/
def HandlerPc.remains : HandlerPc Payload → Bool
  | .exited => false
  | _ => true

def Handler.remains (handler : Handler Payload) : Bool := handler.pc.remains

/-- The waiter is past the sleep in its `wg.Wait()`. -/
def WaiterPc.woken : WaiterPc → Bool
  | .waiting => false
  | .asleep => false
  | _ => true

structure BusInvariant (s : State Payload) : Prop where
  running : s.crashed = false
  mu : OwnedBy Call.holdsMu s.calls s.bus.mu
  once : OwnedBy Call.insideOnce s.calls s.bus.once.runner
  limit : ∀ topic,
    (s.bus.subscribers topic : Int) ≤ s.bus.cfg.maxSubscribersPerTopic
  fresh : s.bus.once = .fresh → s.bus.Unclosed
  done : s.bus.once = .done → s.bus.AllClosed
  calls : ∀ call ∈ s.calls, call.Ok s.bus
  wg_eq : s.bus.wg = s.handlers.countP Handler.remains +
    s.calls.countP Call.added
  waiters : ∀ pc ∈ s.waiters, s.bus.once = .done ∧
    (pc.woken = true → s.bus.wg = 0)

theorem busInvariant_initial (maxChan : Nat) (cfg : Config) :
    BusInvariant (newEventBus maxChan cfg : State Payload) where
  running := rfl
  mu := .nil _
  once := .nil _
  limit := by
    intro topic
    show (0 : Int) ≤ if cfg.maxSubscribersPerTopic ≤ 0 then
      defaultMaxSubscribersPerTopic else cfg.maxSubscribersPerTopic
    have hdefault : defaultMaxSubscribersPerTopic = 16 := rfl
    split <;> omega
  fresh := fun _ => ⟨rfl, fun _ h => by cases h⟩
  done := fun h => by cases h
  calls := fun _ h => by cases h
  wg_eq := rfl
  waiters := fun _ h => by cases h

/-! ## Changes of the bus that no call notices -/

/-- The channels are open and closed as before, and nothing is added to the
wait group or taken back from `once`. -/
structure Bus.Quiet (b b' : Bus Payload) : Prop where
  closed : b'.closed = b.closed
  cfg : b'.cfg = b.cfg
  topics : b'.topics.map (fun channel => (channel.topic, channel.closes)) =
    b.topics.map fun channel => (channel.topic, channel.closes)
  done : b.once = .done → b'.once = .done
  wg_le : b'.wg ≤ b.wg

namespace Bus.Quiet

variable {b b' : Bus Payload}

theorem refl (b : Bus Payload) : b.Quiet b :=
  ⟨rfl, rfl, rfl, id, Nat.le_refl _⟩

theorem wg (h : b.Quiet b') (hzero : b.wg = 0) : b'.wg = 0 := by
  have hle := h.wg_le
  omega

theorem subscribers (h : b.Quiet b') (topic : String) :
    b'.subscribers topic = b.subscribers topic := by
  have hcount := congrArg
    (List.countP fun p : String × Nat => decide (p.1 = topic)) h.topics
  rwa [List.countP_map, List.countP_map] at hcount

theorem closes (h : b.Quiet b') {ch : Nat} {channel' : Channel Payload}
    (hch : b'.topics[ch]? = some channel') :
    ∃ channel, b.topics[ch]? = some channel ∧
      channel'.closes = channel.closes := by
  have hmap := congrArg (fun l => l[ch]?) h.topics
  simp only [List.getElem?_map, hch, Option.map_some] at hmap
  obtain ⟨channel, hchannel, heq⟩ := Option.map_eq_some_iff.mp hmap.symm
  exact ⟨channel, hchannel, (Prod.mk.inj heq).2.symm⟩

theorem closes_of_mem (h : b.Quiet b') {channel' : Channel Payload}
    (hmem : channel' ∈ b'.topics) :
    ∃ channel ∈ b.topics, channel'.closes = channel.closes := by
  obtain ⟨ch, hch⟩ := List.mem_iff_getElem?.mp hmem
  obtain ⟨channel, hchannel, heq⟩ := h.closes hch
  exact ⟨channel, List.mem_of_getElem? hchannel, heq⟩

theorem unclosed (h : b.Quiet b') (hb : b.Unclosed) : b'.Unclosed where
  closed := h.closed.trans hb.closed
  closes := fun _ hmem =>
    have ⟨channel, hchannel, heq⟩ := h.closes_of_mem hmem
    heq.trans (hb.closes channel hchannel)

theorem closing (h : b.Quiet b') {rest : List Nat} (hb : b.Closing rest) :
    b'.Closing rest where
  closed := h.closed.trans hb.closed
  nodup := hb.nodup
  closes := fun ch _ hch =>
    have ⟨channel, hchannel, heq⟩ := h.closes hch
    heq.trans (hb.closes ch channel hchannel)

theorem allClosed (h : b.Quiet b') (hb : b.AllClosed) : b'.AllClosed where
  closed := h.closed.trans hb.closed
  closes := fun _ hmem =>
    have ⟨channel, hchannel, heq⟩ := h.closes_of_mem hmem
    heq.trans (hb.closes channel hchannel)

/-- **No call notices a quiet change.** -/
theorem ok (h : b.Quiet b') {call : Call} (hcall : call.Ok b) :
    call.Ok b' := by
  match call with
  | .subscribe _ .checkingLimit => exact h.closed.trans hcall
  | .subscribe topic .registering =>
      show b'.closed = false ∧
        (b'.subscribers topic : Int) < b'.cfg.maxSubscribersPerTopic
      rw [h.subscribers, h.cfg]
      exact ⟨h.closed.trans hcall.1, hcall.2⟩
  | .subscribe _ (.adding _) => exact h.closed.trans hcall
  | .subscribe _ (.starting _) => exact h.closed.trans hcall
  | .close _ .locking => exact h.unclosed hcall
  | .close _ .settingClosed => exact h.unclosed hcall
  | .close _ (.closing _) => exact h.closing hcall
  | .close _ .unlocking => exact h.allClosed hcall
  | .close _ .leavingOnce => exact h.allClosed hcall
  | .close _ (.returned none) => exact ⟨h.done hcall.1, h.wg hcall.2⟩
  | .close _ .startingWaiter => exact h.done hcall
  | .close _ (.selecting _) => exact h.done hcall
  | .close _ (.returned (some _)) => exact h.done hcall
  | .publish _ | .published _ | .subscribe _ .locking
  | .subscribe _ .checkingClosed | .subscribe _ (.unlocking _)
  | .subscribe _ (.returned _) | .subscribe _ .panicking
  | .subscribe _ .panicked | .close _ .once => trivial

end Bus.Quiet

/-! ## Moves of a call -/

/-- How many handlers start. -/
def Effect.handlers : Effect → Nat
  | .startsHandler _ => 1
  | _ => 0

namespace Moves

variable {b b' : Bus Payload} {waiters : List WaiterPc} {c : Nat}
  {old new : Call} {effect : Effect}

/-- **What a move does to the bus**, besides quiet changes. -/
theorem bus_cases (h : Moves b waiters c old new b' effect) :
    b.Quiet b' ∨
    (∃ topic, old = .subscribe topic .registering ∧ b' = b.register topic) ∨
    (∃ topic ch, old = .subscribe topic (.adding ch) ∧ b' = b.add) ∨
    (∃ ctxDone, old = .close ctxDone .settingClosed ∧
      b' = { b with closed := true }) ∨
    ∃ ctxDone rest ch channel, old = .close ctxDone (.closing rest) ∧
      b.topics[ch]? = some channel ∧ b' = b.closeChannel ch channel := by
  cases h with
  | registers topic _ => exact .inr (.inl ⟨topic, rfl, rfl⟩)
  | adds topic ch => exact .inr (.inr (.inl ⟨topic, ch, rfl, rfl⟩))
  | setsClosed ctxDone => exact .inr (.inr (.inr (.inl ⟨ctxDone, rfl, rfl⟩)))
  | closesChannel ctxDone rest ch channel _ hch _
  | closesClosed ctxDone rest ch channel _ hch _ =>
      exact .inr (.inr (.inr (.inr ⟨ctxDone, rest, ch, channel, rfl, hch,
        rfl⟩)))
  | entersOnce ctxDone hfresh =>
      refine .inl ⟨rfl, rfl, rfl, fun hdone => ?_, Nat.le_refl _⟩
      rw [hfresh] at hdone
      cases hdone
  | leavesOnce => exact .inl ⟨rfl, rfl, rfl, fun _ => rfl, Nat.le_refl _⟩
  | _ => exact .inl ⟨rfl, rfl, rfl, id, Nat.le_refl _⟩

theorem mu_passes (h : Moves b waiters c old new b' effect) :
    OwnedBy.Passes c b.mu old.holdsMu b'.mu new.holdsMu := by
  cases h with
  | subscribeLocks topic hfree | closeLocks ctxDone hfree =>
      exact .takes hfree
  | subscribeUnlocks | panicUnlocks | closeUnlocks => exact .gives rfl
  | _ => exact .keeps

theorem once_passes (h : Moves b waiters c old new b' effect) :
    OwnedBy.Passes c b.once.runner old.insideOnce b'.once.runner
      new.insideOnce := by
  cases h with
  | entersOnce ctxDone hfresh =>
      refine .takes ?_
      rw [hfresh]
      rfl
  | leavesOnce => exact .gives rfl
  | _ => exact .keeps

/-- `once` is fresh until a call enters, and done when that call leaves. -/
theorem once_cases (h : Moves b waiters c old new b' effect) :
    b'.once = b.once ∨ (b.once = .fresh ∧ b'.once = .running c) ∨
      ∃ ctxDone, old = .close ctxDone .leavingOnce ∧ b'.once = .done := by
  cases h with
  | entersOnce ctxDone hfresh => exact .inr (.inl ⟨hfresh, rfl⟩)
  | leavesOnce ctxDone => exact .inr (.inr ⟨ctxDone, rfl, rfl⟩)
  | _ => exact .inl rfl

/-- An `Add` is passed on to the goroutine it is for. -/
theorem wg_eq (h : Moves b waiters c old new b' effect) :
    b'.wg + (if old.added then 1 else 0) =
      b.wg + (if new.added then 1 else 0) + effect.handlers := by
  cases h <;> rfl

end Moves

namespace Call

variable {b b' : Bus Payload} {call : Call}

/-- A call outside the section and outside `once.Do`. -/
theorem ok_of_outside (hmu : call.holdsMu = false)
    (honce : call.insideOnce = false)
    (hdone : b.once = .done → b'.once = .done)
    (hwg : b.wg = 0 → b'.wg = 0) (h : call.Ok b) : call.Ok b' := by
  match call with
  | .close _ (.returned none) => exact ⟨hdone h.1, hwg h.2⟩
  | .close _ .startingWaiter => exact hdone h
  | .close _ (.selecting _) => exact hdone h
  | .close _ (.returned (some _)) => exact hdone h
  | .publish _ | .published _ | .subscribe _ .locking
  | .subscribe _ (.returned _) | .subscribe _ .panicked
  | .close _ .once => trivial

/-- A call outside the section, while the bus is open. -/
theorem ok_of_open (hmu : call.holdsMu = false) (hopen : b.closed = false)
    (hdone : b.once = .done → b.AllClosed)
    (hunclosed : b.Unclosed → b'.Unclosed) (h : call.Ok b) : call.Ok b' := by
  have hnot : b.once ≠ .done := fun heq =>
    absurd ((hdone heq).closed.symm.trans hopen) (by simp)
  match call with
  | .close _ .locking => exact hunclosed h
  | .close _ .leavingOnce =>
      exact absurd (h.closed.symm.trans hopen) (by simp)
  | .close _ (.returned none) => exact absurd h.1 hnot
  | .close _ .startingWaiter => exact absurd h hnot
  | .close _ (.selecting _) => exact absurd h hnot
  | .close _ (.returned (some _)) => exact absurd h hnot
  | .publish _ | .published _ | .subscribe _ .locking
  | .subscribe _ (.returned _) | .subscribe _ .panicked
  | .close _ .once => trivial

end Call

/-! ## The bus after a move -/

namespace Bus

variable {b : Bus Payload}

theorem Unclosed.register (h : b.Unclosed) (topic : String) :
    (b.register topic).Unclosed where
  closed := h.closed
  closes := forall_mem_concat h.closes rfl

theorem subscribers_register (b : Bus Payload) (topic topic' : String) :
    (b.register topic).subscribers topic' = b.subscribers topic' +
      if topic = topic' then 1 else 0 := by
  rw [subscribers, register, List.countP_append, List.countP_singleton]
  simp [subscribers]

theorem subscribers_closeChannel {ch : Nat} {channel : Channel Payload}
    (hch : b.topics[ch]? = some channel) (topic : String) :
    (b.closeChannel ch channel).subscribers topic = b.subscribers topic :=
  countP_congr_map (map_set_of_eq _ hch rfl)

/-- The loop of `Close` closes one more channel. -/
theorem Closing.closeChannel {rest : List Nat} (h : b.Closing rest) {ch : Nat}
    (hmem : ch ∈ rest) {channel : Channel Payload}
    (hch : b.topics[ch]? = some channel) :
    (b.closeChannel ch channel).Closing (rest.erase ch) where
  closed := h.closed
  nodup := h.nodup.erase ch
  closes := by
    intro i channel' hi
    rw [Bus.closeChannel, getElem?_set_eq hch] at hi
    simp only [h.nodup.mem_erase_iff]
    split at hi
    next heq =>
      obtain rfl := Option.some.inj hi
      have hbefore := h.closes ch channel hch
      rw [if_pos hmem] at hbefore
      simp [← heq, hbefore]
    next hne =>
      have hbefore := h.closes i channel' hi
      simpa [Ne.symm hne] using hbefore

theorem Closing.allClosed (h : b.Closing []) : b.AllClosed where
  closed := h.closed
  closes := by
    intro channel hmem
    obtain ⟨ch, hch⟩ := List.mem_iff_getElem?.mp hmem
    exact h.closes ch channel hch

theorem Unclosed.closing (h : b.Unclosed) :
    Bus.Closing { b with closed := true } (List.range b.topics.length) where
  closed := rfl
  nodup := List.nodup_range
  closes := by
    intro ch channel hch
    rw [if_pos (List.mem_range.mpr (lt_length_of_getElem? hch))]
    exact h.closes channel (List.mem_of_getElem? hch)

end Bus

namespace BusInvariant

variable {s : State Payload} {c : Nat} {old new : Call} {bus : Bus Payload}
  {effect : Effect}

/-- **Where the moving call comes to.** -/
theorem ok_new (h : BusInvariant s) (hc : s.calls[c]? = some old)
    (hmove : Moves s.bus s.waiters c old new bus effect) : new.Ok bus := by
  have hold := h.calls old (List.mem_of_getElem? hc)
  cases hmove with
  | findsOpen topic hopen => exact hopen
  | belowLimit topic hroom => exact ⟨hold, hroom⟩
  | registers topic _ => exact hold.1
  | adds | setsClosed => first | exact hold | exact hold.closing
  | entersOnce ctxDone hfresh =>
      exact ⟨(h.fresh hfresh).closed, (h.fresh hfresh).closes⟩
  | skipsOnce ctxDone hdone => exact hdone
  | closeLocks => exact ⟨hold.closed, hold.closes⟩
  | closesChannel ctxDone rest ch channel hmem hch _
  | closesClosed ctxDone rest ch channel hmem hch _ =>
      exact hold.closeChannel hmem hch
  | closedAll => exact hold.allClosed
  | closeUnlocks => exact ⟨hold.closed, hold.closes⟩
  | leavesOnce => rfl
  | startsWaiter => exact hold
  | closeReturns ctxDone waiter hfinished =>
      exact ⟨hold, (h.waiters _ (List.mem_of_getElem? hfinished)).2 rfl⟩
  | closeTimesOut => exact hold
  | _ => trivial

/-- **The other calls notice no move.** -/
theorem ok_other (h : BusInvariant s) (hc : s.calls[c]? = some old)
    (hmove : Moves s.bus s.waiters c old new bus effect) {d : Nat}
    {call : Call} (hd : s.calls[d]? = some call) (hne : d ≠ c) :
    call.Ok bus := by
  have hold := h.calls old (List.mem_of_getElem? hc)
  have hcall := h.calls call (List.mem_of_getElem? hd)
  have hmu := h.mu.excludes hc hd hne
  have honce := h.once.excludes hc hd hne
  rcases hmove.bus_cases with hquiet | ⟨topic, rfl, rfl⟩ |
    ⟨topic, ch, rfl, rfl⟩ | ⟨ctxDone, rfl, rfl⟩ |
    ⟨ctxDone, rest, ch, channel, rfl, hch, rfl⟩
  · exact hquiet.ok hcall
  · exact Call.ok_of_open (hmu rfl) hold.1 h.done
      (fun hunclosed => hunclosed.register topic) hcall
  · exact Call.ok_of_open (hmu rfl) hold h.done
      (fun hunclosed => ⟨hunclosed.closed, hunclosed.closes⟩) hcall
  · exact Call.ok_of_outside (b := s.bus) (hmu rfl) (honce rfl) id id hcall
  · exact Call.ok_of_outside (b := s.bus) (hmu rfl) (honce rfl) id id hcall

/-- While a call is inside `once.Do`, `once` is neither fresh nor done. -/
theorem running_of_insideOnce (h : BusInvariant s)
    (hc : s.calls[c]? = some old) (hinside : old.insideOnce = true) :
    s.bus.once = .running c := by
  have hrunner := h.once.owner_of_holds hc hinside
  cases honce : s.bus.once with
  | fresh => rw [honce] at hrunner; cases hrunner
  | done => rw [honce] at hrunner; cases hrunner
  | running d =>
      rw [honce] at hrunner
      obtain rfl := Option.some.inj hrunner
      rfl

/-- **The limit, and what `once` says about the channels.** -/
theorem bus_move (h : BusInvariant s) (hc : s.calls[c]? = some old)
    (hmove : Moves s.bus s.waiters c old new bus effect) :
    (∀ topic, (bus.subscribers topic : Int) ≤
      bus.cfg.maxSubscribersPerTopic) ∧
    (bus.once = .fresh → bus.Unclosed) ∧
    (bus.once = .done → bus.AllClosed) := by
  have hold := h.calls old (List.mem_of_getElem? hc)
  -- inside `once.Do` there is nothing to show of the last two
  have hinside : ∀ {b : Bus Payload}, old.insideOnce = true →
      b.once = s.bus.once → (b.once = .fresh → b.Unclosed) ∧
        (b.once = .done → b.AllClosed) := by
    intro b hinside hsame
    have hrunning := h.running_of_insideOnce hc hinside
    rw [hsame, hrunning]
    exact ⟨nofun, nofun⟩
  rcases hmove.bus_cases with hquiet | ⟨topic, rfl, rfl⟩ |
    ⟨topic, ch, rfl, rfl⟩ | ⟨ctxDone, rfl, rfl⟩ |
    ⟨ctxDone, rest, ch, channel, rfl, hch, rfl⟩
  · refine ⟨fun topic => ?_, ?_⟩
    · rw [hquiet.subscribers, hquiet.cfg]
      exact h.limit topic
    · rcases hmove.once_cases with hsame | ⟨-, hrunning⟩ |
        ⟨ctxDone, rfl, hdone⟩
      · rw [hsame]
        exact ⟨fun heq => hquiet.unclosed (h.fresh heq),
          fun heq => hquiet.allClosed (h.done heq)⟩
      · rw [hrunning]
        exact ⟨nofun, nofun⟩
      · rw [hdone]
        exact ⟨nofun, fun _ => hquiet.allClosed hold⟩
  · refine ⟨fun topic' => ?_,
      fun heq => (h.fresh heq).register topic, fun heq => ?_⟩
    · rw [Bus.subscribers_register]
      show _ ≤ s.bus.cfg.maxSubscribersPerTopic
      have hroom := hold.2
      have hlimit := h.limit topic'
      split
      next htopic =>
        subst htopic
        omega
      next => simpa using hlimit
    · exact absurd ((h.done heq).closed.symm.trans hold.1) (by simp)
  · exact ⟨h.limit, fun heq => ⟨(h.fresh heq).closed, (h.fresh heq).closes⟩,
      fun heq => ⟨(h.done heq).closed, (h.done heq).closes⟩⟩
  · exact ⟨h.limit, hinside rfl rfl⟩
  · refine ⟨fun topic => ?_, hinside rfl rfl⟩
    rw [Bus.subscribers_closeChannel hch]
    exact h.limit topic

/-- After `once` is done no move adds to the wait group. -/
theorem done_move (h : BusInvariant s) (hc : s.calls[c]? = some old)
    (hmove : Moves s.bus s.waiters c old new bus effect)
    (hdone : s.bus.once = .done) : s.bus.Quiet bus := by
  have hold := h.calls old (List.mem_of_getElem? hc)
  have hclosed := (h.done hdone).closed
  have hnot : old.insideOnce = false := by
    cases hinside : old.insideOnce with
    | false => rfl
    | true =>
        rw [h.running_of_insideOnce hc hinside] at hdone
        cases hdone
  rcases hmove.bus_cases with hquiet | ⟨topic, rfl, rfl⟩ |
    ⟨topic, ch, rfl, rfl⟩ | ⟨ctxDone, rfl, rfl⟩ |
    ⟨ctxDone, rest, ch, channel, rfl, hch, rfl⟩
  · exact hquiet
  · exact absurd (hclosed.symm.trans hold.1) (by simp)
  · exact absurd (hclosed.symm.trans hold) (by simp)
  · cases hnot
  · cases hnot

/-- No channel is closed twice. -/
theorem effect_ne_panics (h : BusInvariant s) (hc : s.calls[c]? = some old)
    (hmove : Moves s.bus s.waiters c old new bus effect) :
    effect ≠ .panics := by
  rintro rfl
  have hold := h.calls old (List.mem_of_getElem? hc)
  cases hmove with
  | closesClosed ctxDone rest ch channel hmem hch hcloses =>
      have hzero := hold.closes ch channel hch
      rw [if_pos hmem] at hzero
      exact hcloses hzero

/-- **A move preserves the invariant.** -/
theorem move (h : BusInvariant s) (hc : s.calls[c]? = some old)
    (hmove : Moves s.bus s.waiters c old new bus effect) :
    BusInvariant
      ({ s with bus := bus, calls := s.calls.set c new }.after effect) := by
  have hpanic := h.effect_ne_panics hc hmove
  have hwg : bus.wg = s.handlers.countP Handler.remains + effect.handlers +
      (s.calls.set c new).countP Call.added := by
    have hcounts := countP_set Call.added hc new
    have hpassed := hmove.wg_eq
    have hbefore := h.wg_eq
    omega
  obtain ⟨hlimit, hfresh, hdone⟩ := h.bus_move hc hmove
  have hcalls : ∀ call ∈ s.calls.set c new, call.Ok bus := by
    intro call hcall
    obtain ⟨d, hd⟩ := List.mem_iff_getElem?.mp hcall
    rw [getElem?_set_eq hc] at hd
    split at hd
    next =>
      obtain rfl := Option.some.inj hd
      exact h.ok_new hc hmove
    next hne => exact h.ok_other hc hmove hd (Ne.symm hne)
  have hwaiters : ∀ pc ∈ s.waiters, bus.once = .done ∧
      (pc.woken = true → bus.wg = 0) := by
    intro pc hpc
    obtain ⟨honce, hwoken⟩ := h.waiters pc hpc
    have hquiet := h.done_move hc hmove honce
    exact ⟨hquiet.done honce, fun hw => hquiet.wg (hwoken hw)⟩
  have hmu := h.mu.passes hc hmove.mu_passes
  have honce := h.once.passes hc hmove.once_passes
  cases effect with
  | nothing =>
      exact ⟨h.running, hmu, honce, hlimit, hfresh, hdone, hcalls, hwg,
        hwaiters⟩
  | startsHandler ch =>
      refine ⟨h.running, hmu, honce, hlimit, hfresh, hdone, hcalls, ?_,
        hwaiters⟩
      show bus.wg = (s.handlers ++ [_]).countP Handler.remains +
        (s.calls.set c new).countP Call.added
      rw [List.countP_append, List.countP_singleton]
      exact hwg
  | startsWaiter =>
      refine ⟨h.running, hmu, honce, hlimit, hfresh, hdone, hcalls, hwg, ?_⟩
      refine forall_mem_concat hwaiters ⟨?_, nofun⟩
      have hold := h.calls old (List.mem_of_getElem? hc)
      cases hmove with
      | startsWaiter => exact hold
  | panics => exact absurd rfl hpanic

/-- A call that begins. -/
theorem concat (h : BusInvariant s) {call : Call}
    (hmu : call.holdsMu = false) (honce : call.insideOnce = false)
    (hadded : call.added = false) (hok : call.Ok s.bus) :
    BusInvariant { s with calls := s.calls ++ [call] } where
  running := h.running
  mu := h.mu.concat hmu
  once := h.once.concat honce
  limit := h.limit
  fresh := h.fresh
  done := h.done
  calls := forall_mem_concat h.calls hok
  wg_eq := by
    show s.bus.wg = s.handlers.countP Handler.remains +
      (s.calls ++ [call]).countP Call.added
    rw [List.countP_append, List.countP_singleton, hadded]
    exact h.wg_eq
  waiters := h.waiters

/-- A context that expires. -/
theorem ctxDone (h : BusInvariant s) {ctxDone : Bool} {pc : ClosePc}
    (hc : s.calls[c]? = some (.close ctxDone pc)) :
    BusInvariant { s with calls := s.calls.set c (.close true pc) } where
  running := h.running
  mu := h.mu.congr (map_set_of_eq _ hc (by cases pc <;> rfl))
  once := h.once.congr (map_set_of_eq _ hc (by cases pc <;> rfl))
  limit := h.limit
  fresh := h.fresh
  done := h.done
  calls := by
    refine forall_mem_set h.calls ?_
    have hold := h.calls _ (List.mem_of_getElem? hc)
    cases pc with
    | returned err => cases err <;> exact hold
    | _ => exact hold
  wg_eq := by
    have hadded : (Call.close true pc).added =
        (Call.close ctxDone pc).added := rfl
    show s.bus.wg = s.handlers.countP Handler.remains +
      (s.calls.set c _).countP Call.added
    rw [countP_congr_map (map_set_of_eq _ hc hadded)]
    exact h.wg_eq
  waiters := h.waiters

/-- The goroutine of a handler, or the environment, changes the bus
quietly. -/
theorem quiet (h : BusInvariant s) {bus : Bus Payload}
    (hquiet : s.bus.Quiet bus) (hmu : bus.mu = s.bus.mu)
    (honce : bus.once = s.bus.once) {handlers : List (Handler Payload)}
    {waiters : List WaiterPc}
    (hwg : bus.wg = handlers.countP Handler.remains +
      s.calls.countP Call.added)
    (hwaiters : ∀ pc ∈ waiters, s.bus.once = .done ∧
      (pc.woken = true → bus.wg = 0)) :
    BusInvariant
      { s with bus := bus, handlers := handlers, waiters := waiters } where
  running := h.running
  mu := hmu ▸ h.mu
  once := honce ▸ h.once
  limit := by
    intro topic
    show (bus.subscribers topic : Int) ≤ bus.cfg.maxSubscribersPerTopic
    rw [hquiet.subscribers, hquiet.cfg]
    exact h.limit topic
  fresh := fun heq => hquiet.unclosed (h.fresh (honce ▸ heq))
  done := fun heq => hquiet.allClosed (h.done (honce ▸ heq))
  calls := fun call hcall => hquiet.ok (h.calls call hcall)
  wg_eq := hwg
  waiters := fun pc hpc => by
    rw [honce]
    exact hwaiters pc hpc

/-- A handler goes on without running its deferred `wg.Done()`. -/
theorem handlerStays (h : BusInvariant s) {bus : Bus Payload}
    (hquiet : s.bus.Quiet bus) (hmu : bus.mu = s.bus.mu)
    (honce : bus.once = s.bus.once) (hwg : bus.wg = s.bus.wg) {i : Nat}
    {handler : Handler Payload} (hi : s.handlers[i]? = some handler)
    {pc : HandlerPc Payload} (hpc : pc.remains = handler.pc.remains) :
    BusInvariant { s.handlerGoto i handler pc with bus := bus } := by
  have hsame : Handler.remains { handler with pc := pc } =
      handler.remains := hpc
  refine h.quiet hquiet hmu honce ?_ fun pc hpc => ?_
  · show bus.wg = (s.handlers.set i _).countP Handler.remains +
      s.calls.countP Call.added
    rw [countP_congr_map (map_set_of_eq _ hi hsame), hwg]
    exact h.wg_eq
  · rw [hwg]
    exact h.waiters pc hpc

/-- Rewriting a buffer is quiet. -/
theorem quiet_setBuffer {b : Bus Payload} {ch : Nat}
    {channel : Channel Payload} (hch : b.topics[ch]? = some channel)
    (buffer : List Payload) : b.Quiet (b.setBuffer ch channel buffer) :=
  ⟨rfl, rfl, map_set_of_eq _ hch rfl, id, Nat.le_refl _⟩

/-- The last `Done` lets the sleeping waiters go. -/
theorem finishes (h : BusInvariant s) {i : Nat} {handler : Handler Payload}
    (hi : s.handlers[i]? = some handler) (hpc : handler.pc = .finishing) :
    BusInvariant
      { s.handlerGoto i handler .exited with
        bus := s.bus.finish
        waiters :=
          if s.bus.finish.wg = 0 then s.waiters.map WaiterPc.release
          else s.waiters } := by
  have hfinish : s.bus.Quiet s.bus.finish :=
    ⟨rfl, rfl, rfl, id, Nat.sub_le _ _⟩
  refine h.quiet hfinish rfl rfl ?_ ?_
  · have hcount := countP_set Handler.remains hi
      { handler with pc := .exited }
    have hbefore := h.wg_eq
    have hold : handler.remains = true := by
      rw [Handler.remains, hpc]
      rfl
    rw [hold, show Handler.remains { handler with pc := .exited } = false
      from rfl] at hcount
    simp only [if_true, Bool.false_eq_true, if_false] at hcount
    show s.bus.wg - 1 = (s.handlers.set i _).countP Handler.remains +
      s.calls.countP Call.added
    omega
  · split
    next hlast =>
      intro pc hpc
      obtain ⟨pc', hpc', rfl⟩ := List.mem_map.mp hpc
      exact ⟨(h.waiters pc' hpc').1, fun _ => hlast⟩
    next =>
      exact fun pc hpc => ⟨(h.waiters pc hpc).1,
        fun hw => hfinish.wg ((h.waiters pc hpc).2 hw)⟩

/-- A waiter goes on. -/
theorem setWaiter (h : BusInvariant s) {w : Nat} {old pc : WaiterPc}
    (hw : s.waiters[w]? = some old) (hpc : pc.woken = true → s.bus.wg = 0) :
    BusInvariant { s with waiters := s.waiters.set w pc } :=
  h.quiet (.refl _) rfl rfl h.wg_eq
    (forall_mem_set h.waiters
      ⟨(h.waiters old (List.mem_of_getElem? hw)).1, hpc⟩)

/-- **Every step preserves the invariant.** -/
theorem step (h : BusInvariant s) {a : Action Payload} {t : State Payload}
    (hstep : Step s a t) : BusInvariant t := by
  cases hstep.2 with
  | publish topic => exact h.concat rfl rfl rfl trivial
  | subscribe topic => exact h.concat rfl rfl rfl trivial
  | close => exact h.concat rfl rfl rfl trivial
  | ctxDone c ctxDone pc hc => exact h.ctxDone hc
  | move c old new bus effect hc hmove => exact h.move hc hmove
  | deliver ch payload channel hch _ _ =>
      exact h.quiet (quiet_setBuffer hch _) rfl rfl h.wg_eq h.waiters
  | receives i handler channel payload rest hi hpc hch _ =>
      exact h.handlerStays (quiet_setBuffer hch rest) rfl rfl rfl hi
        (by rw [hpc]; rfl)
  | handles i handler payload hi hpc =>
      exact h.handlerStays (.refl _) rfl rfl rfl hi
        (by rw [hpc]; rfl)
  | rangeEnds i handler channel hi hpc _ _ _ =>
      exact h.handlerStays (.refl _) rfl rfl rfl hi
        (by rw [hpc]; rfl)
  | finishes i handler hi hpc => exact h.finishes hi hpc
  | waitReturns w pc hw _ hzero => exact h.setWaiter hw fun _ => hzero
  | waitSleeps w hw _ => exact h.setWaiter hw nofun
  | waitPanics w hw hne =>
      exact absurd ((h.waiters _ (List.mem_of_getElem? hw)).2 rfl) hne
  | closesDone w hw =>
      exact h.setWaiter hw fun _ =>
        (h.waiters _ (List.mem_of_getElem? hw)).2 rfl

end BusInvariant

end GoPrep.Ports.EventBus
