import GoPrep.Ports.EventBusClose
import Mathlib.Data.List.Perm.Basic

/-!
# What is sent on the event bus is handled

Every registered channel belongs to one goroutine, or to the `Subscribe` that
is about to start it.  A record of what is put into the channels and of what
their goroutines take out shows that a channel hands on everything in order,
and that a goroutine leaves its `range` only when its channel is closed and
empty.

## Main results

* `DrainInvariant.step` — the owners, the buffers and the records of the
  channels.
* `event_bus_drains` — no payload is lost or handled out of order, and when a
  `Close` has returned nil each has been handled.
-/

namespace GoPrep.Ports.EventBus

open GoPrep.Verified.ThreadTable
open GoPrep.Verified.Transition

variable {Payload : Type}

/-! ## What passes through the channels -/

inductive Passage (Payload : Type)
  | sent (ch : Nat) (payload : Payload)
  /-- The goroutine of the channel calls its handler with the payload. -/
  | taken (ch : Nat) (payload : Payload)
  deriving DecidableEq, Repr

/-- What goes into a channel or out of it in a step. -/
def State.passages (s : State Payload) :
    Action Payload → List (Passage Payload)
  | .deliver ch payload => [.sent ch payload]
  | .handler h =>
      match s.handlers[h]? with
      | some { ch := ch, pc := .ranging } =>
          match s.bus.topics[ch]? with
          | some channel => (channel.buffer.take 1).map (.taken ch)
          | none => []
      | _ => []
  | _ => []

def Passage.sentTo (ch : Nat) : Passage Payload → Option Payload
  | .sent ch' payload => if ch' = ch then some payload else none
  | .taken _ _ => none

def Passage.takenFrom (ch : Nat) : Passage Payload → Option Payload
  | .sent _ _ => none
  | .taken ch' payload => if ch' = ch then some payload else none

namespace Bus

/-- What channel `ch` holds; nothing before it is registered. -/
def bufferOf (b : Bus Payload) (ch : Nat) : List Payload :=
  (b.topics[ch]?.map Channel.buffer).getD []

def IsClosed (b : Bus Payload) (ch : Nat) : Prop :=
  ∃ channel, b.topics[ch]? = some channel ∧ channel.closes ≠ 0

variable {b : Bus Payload} {ch : Nat} {channel : Channel Payload}

theorem bufferOf_eq (hch : b.topics[ch]? = some channel) :
    b.bufferOf ch = channel.buffer := by
  rw [bufferOf, hch]
  rfl

theorem bufferOf_setBuffer (hch : b.topics[ch]? = some channel)
    (buffer : List Payload) (i : Nat) :
    (b.setBuffer ch channel buffer).bufferOf i =
      if ch = i then buffer else b.bufferOf i := by
  rw [bufferOf, setBuffer, getElem?_set_eq hch]
  split <;> rfl

theorem IsClosed.setBuffer {i : Nat} (h : b.IsClosed i)
    (hch : b.topics[ch]? = some channel) (buffer : List Payload) :
    (b.setBuffer ch channel buffer).IsClosed i := by
  obtain ⟨channel', hi, hcloses⟩ := h
  rw [IsClosed, Bus.setBuffer, getElem?_set_eq hch]
  split
  next heq =>
    subst heq
    obtain rfl := Option.some.inj (hch.symm.trans hi)
    exact ⟨_, rfl, hcloses⟩
  next => exact ⟨channel', hi, hcloses⟩

theorem bufferOf_register (b : Bus Payload) (topic : String) (i : Nat) :
    (b.register topic).bufferOf i = b.bufferOf i := by
  rw [bufferOf, bufferOf, register, List.getElem?_append]
  split
  next => rfl
  next hge =>
    rw [List.getElem?_eq_none (Nat.not_lt.mp hge)]
    cases i - b.topics.length <;> rfl

theorem IsClosed.register {i : Nat} (h : b.IsClosed i) (topic : String) :
    (b.register topic).IsClosed i := by
  obtain ⟨channel', hi, hcloses⟩ := h
  refine ⟨channel', ?_, hcloses⟩
  rw [Bus.register, List.getElem?_append_left (lt_length_of_getElem? hi), hi]

theorem bufferOf_closeChannel (hch : b.topics[ch]? = some channel) (i : Nat) :
    (b.closeChannel ch channel).bufferOf i = b.bufferOf i := by
  rw [bufferOf, bufferOf, closeChannel, getElem?_set_eq hch]
  split
  next heq =>
    subst heq
    rw [hch]
    rfl
  next => rfl

theorem IsClosed.closeChannel {i : Nat} (h : b.IsClosed i)
    (hch : b.topics[ch]? = some channel) :
    (b.closeChannel ch channel).IsClosed i := by
  obtain ⟨channel', hi, hcloses⟩ := h
  rw [IsClosed, Bus.closeChannel, getElem?_set_eq hch]
  split
  next => exact ⟨_, rfl, Nat.succ_ne_zero _⟩
  next => exact ⟨channel', hi, hcloses⟩

end Bus

/-! ## Who owns a channel -/

/-- The channel whose goroutine the call has still to start. -/
def Call.registering : Call → Option Nat
  | .subscribe _ (.adding ch) => some ch
  | .subscribe _ (.starting ch) => some ch
  | _ => none

/-- The channel whose goroutine starts. -/
def Effect.channel : Effect → Option Nat
  | .startsHandler ch => some ch
  | _ => none

/-- The channels with a goroutine, and those that are to get one. -/
def State.owned (s : State Payload) : List Nat :=
  s.handlers.map Handler.ch ++ s.calls.filterMap Call.registering

namespace Moves

variable {b b' : Bus Payload} {waiters : List WaiterPc} {c : Nat}
  {old new : Call} {effect : Effect}

/-- A move leaves the buffers alone. -/
theorem bufferOf_eq (h : Moves b waiters c old new b' effect) (ch : Nat) :
    b'.bufferOf ch = b.bufferOf ch := by
  cases h with
  | registers topic _ => exact b.bufferOf_register topic ch
  | closesChannel _ _ _ _ _ hch _ | closesClosed _ _ _ _ _ hch _ =>
      exact Bus.bufferOf_closeChannel hch ch
  | _ => rfl

/-- A closed channel stays closed. -/
theorem isClosed (h : Moves b waiters c old new b' effect) {ch : Nat}
    (hclosed : b.IsClosed ch) : b'.IsClosed ch := by
  cases h with
  | registers topic _ => exact hclosed.register topic
  | closesChannel _ _ _ _ _ hch _ | closesClosed _ _ _ _ _ hch _ =>
      exact hclosed.closeChannel hch
  | _ => exact hclosed

/-- A channel passes from its registration to its goroutine. -/
theorem owned_perm (h : Moves b waiters c old new b' effect) :
    (effect.channel.toList ++ new.registering.toList ++
        List.range b.topics.length).Perm
      (old.registering.toList ++ List.range b'.topics.length) := by
  cases h with
  | registers topic _ =>
      have hlength : (b.register topic).topics.length =
          b.topics.length + 1 := by
        rw [Bus.register, List.length_append, List.length_singleton]
      rw [hlength, List.range_succ]
      exact List.perm_append_comm
  | adds topic ch | starts topic ch => exact .refl _
  | closesChannel _ _ _ _ _ hch _ | closesClosed _ _ _ _ _ hch _ =>
      rw [Bus.closeChannel, List.length_set]
      exact .refl _
  | _ => exact .refl _

theorem cfg_eq (h : Moves b waiters c old new b' effect) :
    b'.cfg = b.cfg := by
  cases h <;> rfl

end Moves

/-! ## The invariant -/

/-- The goroutine has left its `range`. -/
def HandlerPc.left : HandlerPc Payload → Bool
  | .finishing => true
  | .exited => true
  | _ => false

structure DrainInvariant
    (p : State Payload × List (Passage Payload)) : Prop where
  bus : BusInvariant p.1
  /-- Each registered channel has one owner. -/
  owned : p.1.owned.Perm (List.range p.1.bus.topics.length)
  fifo : ∀ ch, p.2.filterMap (Passage.sentTo ch) =
    p.2.filterMap (Passage.takenFrom ch) ++ p.1.bus.bufferOf ch
  capacity : ∀ ch,
    ((p.1.bus.bufferOf ch).length : Int) ≤ p.1.bus.cfg.bufferPerTopic
  left : ∀ handler ∈ p.1.handlers, handler.pc.left = true →
    p.1.bus.IsClosed handler.ch ∧ p.1.bus.bufferOf handler.ch = []

theorem drainInvariant_initial (maxChan : Nat) (cfg : Config) :
    DrainInvariant ((newEventBus maxChan cfg : State Payload), []) where
  bus := busInvariant_initial maxChan cfg
  owned := .refl _
  fifo := fun _ => rfl
  capacity := fun _ => by
    show (0 : Int) ≤ if cfg.bufferPerTopic ≤ 0 then defaultBufferPerTopic
      else cfg.bufferPerTopic
    have hdefault : defaultBufferPerTopic = 64 := rfl
    split <;> omega
  left := fun _ h => by cases h

theorem map_ch_set {handlers : List (Handler Payload)} {i : Nat}
    {handler : Handler Payload} (hi : handlers[i]? = some handler)
    (pc : HandlerPc Payload) :
    (handlers.set i { handler with pc := pc }).map Handler.ch =
      handlers.map Handler.ch :=
  map_set_of_eq Handler.ch hi rfl

namespace DrainInvariant

variable {s : State Payload} {record : List (Passage Payload)} {c : Nat}

/-- A call begins, or its context expires. -/
theorem calls (h : DrainInvariant (s, record)) {calls : List Call}
    (hbus : BusInvariant { s with calls := calls })
    (hcalls : calls.filterMap Call.registering =
      s.calls.filterMap Call.registering) :
    DrainInvariant ({ s with calls := calls }, record) where
  bus := hbus
  owned := by
    show (s.handlers.map Handler.ch ++
      calls.filterMap Call.registering).Perm _
    rw [hcalls]
    exact h.owned
  fifo := h.fifo
  capacity := h.capacity
  left := h.left

/-- **A move hands channels on and leaves their buffers alone.** -/
theorem move (h : DrainInvariant (s, record)) {old new : Call}
    {bus : Bus Payload} {effect : Effect} (hc : s.calls[c]? = some old)
    (hmove : Moves s.bus s.waiters c old new bus effect) :
    DrainInvariant
      (({ s with bus := bus, calls := s.calls.set c new }.after effect),
        record) := by
  have hpanic := h.bus.effect_ne_panics hc hmove
  have hfifo : ∀ ch, record.filterMap (Passage.sentTo ch) =
      record.filterMap (Passage.takenFrom ch) ++ bus.bufferOf ch := by
    intro ch
    rw [hmove.bufferOf_eq]
    exact h.fifo ch
  have hcapacity : ∀ ch,
      ((bus.bufferOf ch).length : Int) ≤ bus.cfg.bufferPerTopic := by
    intro ch
    rw [hmove.bufferOf_eq, hmove.cfg_eq]
    exact h.capacity ch
  have hleft : ∀ handler ∈ s.handlers, handler.pc.left = true →
      bus.IsClosed handler.ch ∧ bus.bufferOf handler.ch = [] := by
    intro handler hhandler hpc
    obtain ⟨hclosed, hempty⟩ := h.left handler hhandler hpc
    exact ⟨hmove.isClosed hclosed, (hmove.bufferOf_eq _).trans hempty⟩
  have howned : ((s.handlers.map Handler.ch ++ effect.channel.toList) ++
      (s.calls.set c new).filterMap Call.registering).Perm
        (List.range bus.topics.length) := by
    have hset := filterMap_set_perm Call.registering hc new
    have hpassed := hmove.owned_perm
    have hbefore : (s.handlers.map Handler.ch ++
        s.calls.filterMap Call.registering).Perm
          (List.range s.bus.topics.length) := h.owned
    rw [List.perm_iff_count] at hset hpassed hbefore ⊢
    intro ch
    have hset := hset ch
    have hpassed := hpassed ch
    have hbefore := hbefore ch
    simp only [List.count_append] at hset hpassed hbefore ⊢
    omega
  have hbus := h.bus.move hc hmove
  cases effect with
  | startsHandler ch =>
      refine ⟨hbus, ?_, hfifo, hcapacity, forall_mem_concat hleft nofun⟩
      show ((s.handlers ++ [_]).map Handler.ch ++ _).Perm _
      rw [List.map_append]
      exact howned
  | nothing | startsWaiter =>
      rw [show (Effect.channel _).toList = [] from rfl,
        List.append_nil] at howned
      exact ⟨hbus, howned, hfifo, hcapacity, hleft⟩
  | panics => exact absurd rfl hpanic

/-- A goroutine moves on without taking anything from its channel. -/
theorem handlerGoto (h : DrainInvariant (s, record)) {i : Nat}
    {handler : Handler Payload} (hi : s.handlers[i]? = some handler)
    {pc : HandlerPc Payload}
    (hleft : pc.left = true → s.bus.IsClosed handler.ch ∧
      s.bus.bufferOf handler.ch = []) {t : State Payload}
    (hbus : BusInvariant t) (hcalls : t.calls = s.calls)
    (hhandlers : t.handlers = s.handlers.set i { handler with pc := pc })
    (htopics : t.bus.topics = s.bus.topics) (hcfg : t.bus.cfg = s.bus.cfg) :
    DrainInvariant (t, record) := by
  have hbuffers : t.bus.bufferOf = s.bus.bufferOf := by
    funext ch
    rw [Bus.bufferOf, Bus.bufferOf, htopics]
  have hclosed : t.bus.IsClosed = s.bus.IsClosed := by
    funext ch
    rw [Bus.IsClosed, Bus.IsClosed, htopics]
  refine ⟨hbus, ?_, ?_, ?_, ?_⟩
  · show (t.handlers.map Handler.ch ++
      t.calls.filterMap Call.registering).Perm _
    rw [hhandlers, hcalls, htopics, map_ch_set hi]
    exact h.owned
  · show ∀ ch, _ = _ ++ t.bus.bufferOf ch
    rw [hbuffers]
    exact h.fifo
  · show ∀ ch, ((t.bus.bufferOf ch).length : Int) ≤ t.bus.cfg.bufferPerTopic
    rw [hbuffers, hcfg]
    exact h.capacity
  · show ∀ handler ∈ t.handlers, _ → t.bus.IsClosed _ ∧ t.bus.bufferOf _ = []
    rw [hbuffers, hclosed, hhandlers]
    exact forall_mem_set h.left hleft

/-- A payload goes into an open channel. -/
theorem deliver (h : DrainInvariant (s, record)) {ch : Nat}
    {payload : Payload} {channel : Channel Payload}
    (hch : s.bus.topics[ch]? = some channel) (hopen : channel.closes = 0)
    (hroom : channel.buffer.length < s.bus.cfg.bufferPerTopic)
    (hbus : BusInvariant { s with
      bus := s.bus.setBuffer ch channel (channel.buffer ++ [payload]) }) :
    DrainInvariant
      ({ s with
        bus := s.bus.setBuffer ch channel (channel.buffer ++ [payload]) },
        record ++ [.sent ch payload]) where
  bus := hbus
  owned := by
    show s.owned.Perm (List.range (s.bus.topics.set ch _).length)
    rw [List.length_set]
    exact h.owned
  fifo := by
    intro i
    have hbefore : record.filterMap (Passage.sentTo i) =
        record.filterMap (Passage.takenFrom i) ++ s.bus.bufferOf i := h.fifo i
    show (record ++ [_]).filterMap _ = (record ++ [_]).filterMap _ ++
      (s.bus.setBuffer ch channel _).bufferOf i
    rw [Bus.bufferOf_setBuffer hch, List.filterMap_append,
      List.filterMap_append, hbefore]
    by_cases heq : ch = i
    · subst heq
      rw [Bus.bufferOf_eq hch]
      simp [Passage.sentTo, Passage.takenFrom]
    · simp [Passage.sentTo, Passage.takenFrom, heq]
  capacity := by
    intro i
    show (((s.bus.setBuffer ch channel _).bufferOf i).length : Int) ≤
      s.bus.cfg.bufferPerTopic
    rw [Bus.bufferOf_setBuffer hch]
    split
    next =>
      rw [List.length_append, List.length_singleton]
      omega
    next => exact h.capacity i
  left := by
    intro handler hhandler hleft
    obtain ⟨hclosed, hempty⟩ := h.left handler hhandler hleft
    refine ⟨hclosed.setBuffer hch _, ?_⟩
    show (s.bus.setBuffer ch channel _).bufferOf handler.ch = []
    rw [Bus.bufferOf_setBuffer hch, if_neg, hempty]
    rintro rfl
    obtain ⟨channel', hch', hcloses⟩ := hclosed
    obtain rfl := Option.some.inj (hch.symm.trans hch')
    exact hcloses hopen

/-- The goroutine of a channel takes the oldest payload. -/
theorem receives (h : DrainInvariant (s, record)) {i : Nat}
    {handler : Handler Payload} {channel : Channel Payload}
    {payload : Payload} {rest : List Payload}
    (hi : s.handlers[i]? = some handler)
    (hch : s.bus.topics[handler.ch]? = some channel)
    (hbuffer : channel.buffer = payload :: rest)
    (hbus : BusInvariant { s.handlerGoto i handler (.handling payload) with
      bus := s.bus.setBuffer handler.ch channel rest }) :
    DrainInvariant
      ({ s.handlerGoto i handler (.handling payload) with
        bus := s.bus.setBuffer handler.ch channel rest },
        record ++ [.taken handler.ch payload]) where
  bus := hbus
  owned := by
    show ((s.handlers.set i { handler with pc := _ }).map Handler.ch ++ _).Perm
      (List.range (s.bus.topics.set handler.ch _).length)
    rw [List.length_set, map_ch_set hi]
    exact h.owned
  fifo := by
    intro ch
    have hbefore : record.filterMap (Passage.sentTo ch) =
        record.filterMap (Passage.takenFrom ch) ++ s.bus.bufferOf ch :=
      h.fifo ch
    show (record ++ [_]).filterMap _ = (record ++ [_]).filterMap _ ++
      (s.bus.setBuffer handler.ch channel _).bufferOf ch
    rw [Bus.bufferOf_setBuffer hch, List.filterMap_append,
      List.filterMap_append, hbefore]
    by_cases heq : handler.ch = ch
    · subst heq
      rw [Bus.bufferOf_eq hch, hbuffer]
      simp [Passage.sentTo, Passage.takenFrom]
    · simp [Passage.sentTo, Passage.takenFrom, heq]
  capacity := by
    intro ch
    have hbefore : ((s.bus.bufferOf ch).length : Int) ≤
      s.bus.cfg.bufferPerTopic := h.capacity ch
    show (((s.bus.setBuffer handler.ch channel _).bufferOf ch).length : Int) ≤
      s.bus.cfg.bufferPerTopic
    rw [Bus.bufferOf_setBuffer hch]
    split
    next heq =>
      rw [← heq, Bus.bufferOf_eq hch, hbuffer, List.length_cons] at hbefore
      omega
    next => exact hbefore
  left := by
    refine forall_mem_set (fun other hother hleft => ?_) nofun
    obtain ⟨hclosed, hempty⟩ := h.left other hother hleft
    refine ⟨hclosed.setBuffer hch _, ?_⟩
    show (s.bus.setBuffer handler.ch channel _).bufferOf other.ch = []
    rw [Bus.bufferOf_setBuffer hch, if_neg, hempty]
    intro heq
    rw [← heq] at hempty
    have hfull := (Bus.bufferOf_eq hch).symm.trans hempty
    rw [hbuffer] at hfull
    cases hfull

/-- **Every step preserves the invariant.** -/
theorem step {p q : State Payload × List (Passage Payload)}
    (h : DrainInvariant p) {a : Action Payload}
    (hstep : Recording Step State.passages p a q) : DrainInvariant q := by
  obtain ⟨s, record⟩ := p
  obtain ⟨t, record'⟩ := q
  obtain ⟨hmove, rfl⟩ := hstep
  have hbus : BusInvariant t := h.bus.step hmove
  cases hmove.2 with
  | publish topic | subscribe topic | close =>
      show DrainInvariant (_, record ++ [])
      rw [List.append_nil]
      exact h.calls hbus (by
        rw [List.filterMap_append]
        exact List.append_nil _)
  | ctxDone c ctxDone pc hc =>
      show DrainInvariant (_, record ++ [])
      rw [List.append_nil]
      exact h.calls hbus (filterMap_congr_map (map_set_of_eq _ hc rfl))
  | move c old new bus effect hc hmoves =>
      show DrainInvariant (_, record ++ [])
      rw [List.append_nil]
      exact h.move hc hmoves
  | deliver ch payload channel hch hopen hroom =>
      exact h.deliver hch hopen hroom hbus
  | receives i handler channel payload rest hi hpc hch hbuffer =>
      obtain ⟨ch, pc⟩ := handler
      obtain rfl : pc = .ranging := hpc
      have hpassages : State.passages s (.handler i) =
          [.taken ch payload] := by
        have hch' : s.bus.topics[ch]? = some channel := hch
        simp [State.passages, hi, hch', hbuffer]
      rw [hpassages]
      exact h.receives hi hch hbuffer hbus
  | handles i handler payload hi hpc =>
      obtain ⟨ch, pc⟩ := handler
      obtain rfl : pc = .handling payload := hpc
      have hpassages : State.passages s (.handler i) = [] := by
        simp [State.passages, hi]
      rw [hpassages, List.append_nil]
      exact h.handlerGoto hi (fun hleft => by cases hleft) hbus rfl rfl rfl rfl
  | rangeEnds i handler channel hi hpc hch hempty hclosed =>
      obtain ⟨ch, pc⟩ := handler
      obtain rfl : pc = .ranging := hpc
      have hch' : s.bus.topics[ch]? = some channel := hch
      have hpassages : State.passages s (.handler i) = [] := by
        simp [State.passages, hi, hch', hempty]
      rw [hpassages, List.append_nil]
      exact h.handlerGoto hi
        (fun _ => ⟨⟨channel, hch', hclosed⟩,
          (Bus.bufferOf_eq hch').trans hempty⟩) hbus rfl rfl rfl rfl
  | finishes i handler hi hpc =>
      obtain ⟨ch, pc⟩ := handler
      obtain rfl : pc = .finishing := hpc
      have hpassages : State.passages s (.handler i) = [] := by
        simp [State.passages, hi]
      rw [hpassages, List.append_nil]
      exact h.handlerGoto hi
        (fun _ => h.left _ (List.mem_of_getElem? hi) rfl) hbus rfl rfl rfl rfl
  | waitReturns | waitSleeps | waitPanics | closesDone =>
      show DrainInvariant (_, record ++ [])
      rw [List.append_nil]
      exact ⟨hbus, h.owned, h.fifo, h.capacity, h.left⟩

/-- Once `once` is done, each registered channel has its goroutine. -/
theorem exists_handler (h : DrainInvariant (s, record))
    (hdone : s.bus.once = .done) {ch : Nat}
    (hch : ch < s.bus.topics.length) :
    ∃ handler ∈ s.handlers, handler.ch = ch := by
  have howned : s.owned.Perm (List.range s.bus.topics.length) := h.owned
  have hmem := howned.mem_iff.mpr (List.mem_range.mpr hch)
  rcases List.mem_append.mp hmem with hmem | hmem
  · exact List.mem_map.mp hmem
  · exfalso
    obtain ⟨call, hcall, hregistering⟩ := List.mem_filterMap.mp hmem
    have hclosed := (h.bus.done hdone).closed
    have hok := h.bus.calls call hcall
    cases call with
    | subscribe topic pc =>
        cases pc with
        | adding | starting => cases hclosed.symm.trans hok
        | _ => cases hregistering
    | _ => cases hregistering

/-- Once the wait group has come to zero, the channels are empty. -/
theorem bufferOf_eq_nil (h : DrainInvariant (s, record))
    (hdone : s.bus.once = .done) (hwg : s.bus.wg = 0) (ch : Nat) :
    s.bus.bufferOf ch = [] := by
  by_cases hch : ch < s.bus.topics.length
  · obtain ⟨handler, hhandler, rfl⟩ := h.exists_handler hdone hch
    refine (h.left handler hhandler ?_).2
    have hcount : s.bus.wg = s.handlers.countP Handler.remains +
      s.calls.countP Call.added := h.bus.wg_eq
    have hnone : s.handlers.countP Handler.remains = 0 := by omega
    have hexited := List.countP_eq_zero.mp hnone handler hhandler
    unfold Handler.remains at hexited
    cases hpc : handler.pc with
    | exited | finishing => rfl
    | _ =>
        rw [hpc] at hexited
        exact absurd rfl hexited
  · rw [Bus.bufferOf, List.getElem?_eq_none (Nat.not_lt.mp hch)]
    rfl

end DrainInvariant

/-! ## Nothing is dropped -/

/-- What is known of the payloads in a state, with the record of the run. -/
structure Drains (s : State Payload) (record : List (Passage Payload)) :
    Prop where
  /-- A channel hands on in order what was put into it. -/
  fifo : ∀ ch, record.filterMap (Passage.sentTo ch) =
    record.filterMap (Passage.takenFrom ch) ++ s.bus.bufferOf ch
  capacity : ∀ ch,
    ((s.bus.bufferOf ch).length : Int) ≤ s.bus.cfg.bufferPerTopic
  /-- Two goroutines do not share a channel. -/
  ownChannel : (s.handlers.map Handler.ch).Nodup
  /-- A goroutine whose `range` has ended has taken everything. -/
  left : ∀ handler ∈ s.handlers, handler.pc.left = true →
    s.bus.IsClosed handler.ch ∧
      record.filterMap (Passage.sentTo handler.ch) =
        record.filterMap (Passage.takenFrom handler.ch)
  /-- A `Close` that returns nil leaves nothing behind. -/
  closed : ∀ ctxDone, .close ctxDone (.returned none) ∈ s.calls → ∀ ch,
    record.filterMap (Passage.sentTo ch) =
      record.filterMap (Passage.takenFrom ch)

/-- **No payload is dropped.**  For every configuration, in every record of
every run of `Subscribe`, `Publish` and `Close` calls, of expiring contexts
and of sends to open channels: each channel, never over its bound, has one
goroutine at most and hands on in order what was sent to it; its goroutine
ends only when the channel is closed and everything was handled; and once a
`Close` has returned nil everything ever sent was handled. -/
theorem event_bus_drains (maxChan : Nat) (cfg : Config) {s : State Payload}
    {record : List (Passage Payload)}
    (hs : Reaches (Recording Step State.passages)
      (newEventBus maxChan cfg, [])
      (s, record)) : Drains s record := by
  have h : DrainInvariant (s, record) :=
    hs.invariant (fun _ _ _ h hstep => h.step hstep)
      (drainInvariant_initial maxChan cfg)
  have hempty : ∀ ch, s.bus.bufferOf ch = [] →
      record.filterMap (Passage.sentTo ch) =
        record.filterMap (Passage.takenFrom ch) := by
    intro ch hch
    have hfifo : record.filterMap (Passage.sentTo ch) =
      record.filterMap (Passage.takenFrom ch) ++ s.bus.bufferOf ch := h.fifo ch
    rwa [hch, List.append_nil] at hfifo
  have howned : s.owned.Perm (List.range s.bus.topics.length) := h.owned
  refine ⟨h.fifo, h.capacity, ?_, fun handler hhandler hleft => ?_,
    fun ctxDone hreturned ch => ?_⟩
  · exact (howned.nodup_iff.mpr List.nodup_range).of_append_left
  · obtain ⟨hclosed, hch⟩ := h.left handler hhandler hleft
    exact ⟨hclosed, hempty _ hch⟩
  · obtain ⟨hdone, hwg⟩ := h.bus.calls _ hreturned
    exact hempty ch (h.bufferOf_eq_nil hdone hwg ch)

/-- A payload in the channel of one subscriber. -/
def sentOne : State String :=
  { bus :=
      { maxChan := 64
        mu := none
        topics := [⟨"a", ["x"], 0⟩]
        wg := 1
        once := .fresh
        closed := false
        cfg := ⟨64, 16⟩ }
    calls := [.subscribe "a" (.returned none)]
    handlers := [⟨0, .ranging⟩]
    waiters := []
    crashed := false }

theorem reaches_sentOne :
    Reaches (Recording Step State.passages) (newEventBus 64 ⟨0, 0⟩, [])
      (sentOne, [.sent 0 "x"]) := by
  have hinitial : Reaches (Recording Step State.passages)
      ((newEventBus 64 ⟨0, 0⟩ : State String), [])
      (newEventBus 64 ⟨0, 0⟩, []) := .refl
  have hchecked := ((((hinitial.record ⟨rfl, .subscribe _ "a"⟩).record
    ⟨rfl, .move _ 0 _ _ _ _ rfl (.subscribeLocks _ rfl)⟩).record
    ⟨rfl, .move _ 0 _ _ _ _ rfl (.findsOpen _ rfl)⟩).record
    ⟨rfl, .move _ 0 _ _ _ _ rfl (.belowLimit _ (by decide))⟩)
  have hsubscribed := (((hchecked.record
    ⟨rfl, .move _ 0 _ _ _ _ rfl (.registers _ (by decide))⟩).record
    ⟨rfl, .move _ 0 _ _ _ _ rfl (.adds _ _)⟩).record
    ⟨rfl, .move _ 0 _ _ _ _ rfl (.starts _ _)⟩).record
    ⟨rfl, .move _ 0 _ _ _ _ rfl (.subscribeUnlocks _ _)⟩
  exact hsubscribed.record ⟨rfl, .deliver _ 0 "x" _ rfl rfl (by decide)⟩

/-- Its goroutine takes it out after the channel was closed. -/
theorem event_bus_drains_one :
    ∃ s : State String,
      Drains s [.sent 0 "x", .taken 0 "x"] ∧
      s.calls = [.subscribe "a" (.returned none),
        .close false (.returned none)] := by
  have hclosing := (((reaches_sentOne.record ⟨rfl, .close _⟩).record
    ⟨rfl, .move _ 1 _ _ _ _ rfl (.entersOnce _ rfl)⟩).record
    ⟨rfl, .move _ 1 _ _ _ _ rfl (.closeLocks _ rfl)⟩).record
    ⟨rfl, .move _ 1 _ _ _ _ rfl (.setsClosed _)⟩
  have hclosed := ((((hclosing.record
    ⟨rfl, .move _ 1 _ _ _ _ rfl
      (.closesChannel _ [0] 0 _ (by decide) rfl rfl)⟩).record
    ⟨rfl, .move _ 1 _ _ _ _ rfl (.closedAll _)⟩).record
    ⟨rfl, .move _ 1 _ _ _ _ rfl (.closeUnlocks _)⟩).record
    ⟨rfl, .move _ 1 _ _ _ _ rfl (.leavesOnce _)⟩).record
    ⟨rfl, .move _ 1 _ _ _ _ rfl (.startsWaiter _)⟩
  have hexited := (((hclosed.record
    ⟨rfl, .receives _ 0 _ _ "x" [] rfl rfl rfl rfl⟩).record
    ⟨rfl, .handles _ 0 _ "x" rfl rfl⟩).record
    ⟨rfl, .rangeEnds _ 0 _ _ rfl rfl rfl rfl (by decide)⟩).record
    ⟨rfl, .finishes _ 0 _ rfl rfl⟩
  have hreturned := ((hexited.record
    ⟨rfl, .waitReturns _ 0 _ rfl (.inl rfl) rfl⟩).record
    ⟨rfl, .closesDone _ 0 rfl⟩).record
    ⟨rfl, .move _ 1 _ _ _ _ rfl (.closeReturns _ 0 rfl)⟩
  exact ⟨_, event_bus_drains _ _ hreturned, rfl⟩

end GoPrep.Ports.EventBus
