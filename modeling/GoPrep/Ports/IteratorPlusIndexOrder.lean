import GoPrep.Ports.IteratorPlusIndexLog

/-!
# The order in which calls take effect

An `Insert` takes effect at its map update and a `Query` at its traversal,
both under `idxMu`.  Each lies between the invocation of its call and its
response, so the order of these points respects real time.

## Main results

* `OrderInvariant.step` — the order lists every call that has taken effect,
  once, and respects the history of invocations and responses.
* `order_grows` — the order only grows at its end.
-/

namespace GoPrep.Ports.IteratorPlusIndex

open GoPrep.Ports.IndexRecord
open GoPrep.Verified.RealTime
open GoPrep.Verified.ThreadTable
open GoPrep.Verified.Transition

/-- What a call past its effect did; `none` before it and for a call that is
rejected or fails. -/
def Call.effect : Call → Option Effect
  | .insert id text (.leave (.inserted offset)) =>
      some (.inserted ⟨id, text⟩ offset)
  | .insert id text (.leaving (.inserted offset)) =>
      some (.inserted ⟨id, text⟩ offset)
  | .insert id text (.returned (.inserted offset)) =>
      some (.inserted ⟨id, text⟩ offset)
  | .query _ _ (.leave _) => some .queried
  | .query _ _ (.leaving _) => some .queried
  | .query _ _ (.returned true _) => some .queried
  | _ => none

@[simp] theorem Call.effect_wake (call : Call) :
    call.wake.effect = call.effect :=
  call.wake_eq Call.effect rfl

structure OrderInvariant (s : State) : Prop where
  effects : Records Call.effect s.calls s.index.order
  realTime : RespectsRealTime s.history (s.index.order.map Prod.fst)
  invoked : ∀ c, .invoke c ∈ s.history ↔ c < s.calls.length
  responded : ∀ c, .respond c ∈ s.history ↔
    (s.calls.map Call.hasReturned)[c]? = some true
  nodup : s.history.Nodup

theorem orderInvariant_initial : OrderInvariant .initial where
  effects := .nil _
  realTime := .nil _
  invoked := by simp [State.initial]
  responded := by simp [State.initial]
  nodup := List.nodup_nil

namespace Moves

variable {x y : Index} {c : Nat} {old new : Call} {notify : Bool}

/-- A move has no effect, or is the effect of its call, which has not
responded. -/
theorem effect_cases (h : Moves x c old new y notify) :
    (y.order = x.order ∧ new.effect = old.effect) ∨
    ∃ effect, old.effect = none ∧ new.effect = some effect ∧
      y.order = x.order ++ [(c, effect)] ∧ old.hasReturned = false ∧
      new.hasReturned = false := by
  cases h with
  | updates id text offset => exact .inr ⟨_, rfl, rfl, rfl, rfl, rfl⟩
  | traverses minId limit => exact .inr ⟨_, rfl, rfl, rfl, rfl, rfl⟩
  | insertLeaves id text result =>
      cases result <;> exact .inl ⟨rfl, rfl⟩
  | insertLeft id text result => cases result <;> exact .inl ⟨rfl, rfl⟩
  | nexts minId limit admitted iter _ =>
      cases admitted <;> exact .inl ⟨rfl, rfl⟩
  | preads minId limit admitted iter reading n _ _ _ =>
      cases admitted <;> exact .inl ⟨rfl, rfl⟩
  | closesIterator minId limit admitted iter _ =>
      cases admitted <;> exact .inl ⟨rfl, rfl⟩
  | _ => exact .inl ⟨rfl, rfl⟩

theorem order_grows (h : Moves x c old new y notify) :
    x.order <+: y.order := by
  rcases h.effect_cases with ⟨horder, -⟩ | ⟨effect, -, -, horder, -⟩
  · exact horder ▸ List.prefix_rfl
  · exact horder ▸ List.prefix_append _ _

theorem hasReturned (h : Moves x c old new y notify)
    (hold : old.hasReturned = true) : new.hasReturned = true := by
  cases h with
  | nexts | preads | closesIterator => rfl
  | _ => cases hold

end Moves

namespace OrderInvariant

variable {s : State}

theorem begin (h : OrderInvariant s) {call : Call}
    (heffect : call.effect = none) (hreturned : call.hasReturned = false) :
    OrderInvariant (s.begin call) where
  effects := h.effects.concat heffect
  realTime := by
    apply h.realTime.invoke
    intro hmem
    obtain ⟨entry, hentry, hcall⟩ := List.mem_map.mp hmem
    have hlt := h.effects.lt_length hentry
    omega
  invoked := by
    intro c
    simp only [State.begin, List.mem_append, List.mem_singleton, h.invoked,
      Event.invoke.injEq, List.length_append, List.length_singleton]
    omega
  responded := by
    intro c
    simp only [State.begin, List.map_append, List.map_singleton,
      getElem?_concat_eq_some, List.mem_append, List.mem_singleton,
      h.responded, hreturned]
    simp
  nodup := by
    rw [State.begin]
    refine List.nodup_append.mpr ⟨h.nodup, List.nodup_singleton _, ?_⟩
    intro event hevent event' hevent' heq
    rw [List.mem_singleton.mp hevent'] at heq
    rw [heq, h.invoked] at hevent
    omega

/-- Calls that change without taking effect or responding. -/
theorem withCalls (h : OrderInvariant s) {calls : List Call}
    (heffect : calls.map Call.effect = s.calls.map Call.effect)
    (hreturned : calls.map Call.hasReturned =
      s.calls.map Call.hasReturned) :
    OrderInvariant { s with calls := calls } where
  effects := h.effects.congr heffect
  realTime := h.realTime
  invoked := by
    have hlength := congrArg List.length heffect
    rw [List.length_map, List.length_map] at hlength
    rw [hlength]
    exact h.invoked
  responded := by
    rw [hreturned]
    exact h.responded
  nodup := h.nodup

/-- A move that is the effect of its call or has none. -/
theorem moves (h : OrderInvariant s) {c : Nat} {old new : Call} {x : Index}
    {notify : Bool} (hc : s.calls[c]? = some old)
    (hmove : Moves s.index c old new x notify) :
    Records Call.effect (s.calls.set c new) x.order ∧
      RespectsRealTime s.history (x.order.map Prod.fst) := by
  rcases hmove.effect_cases with ⟨horder, heffect⟩ |
    ⟨effect, hnone, hsome, horder, hpending, -⟩
  · rw [horder]
    exact ⟨h.effects.set hc new heffect, h.realTime⟩
  · rw [horder, List.map_append]
    refine ⟨h.effects.set_concat hc hnone hsome,
      h.realTime.linearize fun hmem => ?_⟩
    rw [h.responded, List.getElem?_map, hc, Option.map_some, hpending] at hmem
    cases hmem

/-- The response of a call, if its move makes it return. -/
theorem responds (h : OrderInvariant s) {c : Nat} {old new : Call} {x : Index}
    {notify : Bool} (hc : s.calls[c]? = some old)
    (hmove : Moves s.index c old new x notify) :
    OrderInvariant
      { index := x
        calls := s.calls.set c new
        history := s.history ++ respond c old new } := by
  obtain ⟨heffects, hrealTime⟩ := h.moves hc hmove
  have hreturned : ∀ d : Nat, ((s.calls.set c new).map Call.hasReturned)[d]? =
      if c = d then some new.hasReturned
      else (s.calls.map Call.hasReturned)[d]? := by
    intro d
    rw [List.getElem?_map, getElem?_set_eq hc, List.getElem?_map]
    split <;> rfl
  unfold respond
  split
  next hresponds =>
    refine ⟨heffects, hrealTime.respond c, ?_, ?_, ?_⟩
    · simp [h.invoked]
    · intro d
      rw [List.mem_append, h.responded, hreturned]
      by_cases hcd : c = d
      · subst hcd
        simp [hresponds.2]
      · simp [hcd, Ne.symm hcd]
    · refine List.nodup_append.mpr ⟨h.nodup, List.nodup_singleton _, ?_⟩
      intro event hevent event' hevent' heq
      rw [List.mem_singleton.mp hevent'] at heq
      rw [heq, h.responded, List.getElem?_map, hc, Option.map_some,
        hresponds.1] at hevent
      cases hevent
  next hsilent =>
    have hsame : new.hasReturned = old.hasReturned := by
      cases hold : old.hasReturned with
      | true => exact hmove.hasReturned hold
      | false => simpa [hold] using hsilent
    rw [List.append_nil]
    refine ⟨heffects, hrealTime, ?_, ?_, h.nodup⟩
    · simpa using h.invoked
    · rw [map_set_of_eq _ hc hsame]
      exact h.responded

/-- **Every step preserves the invariant.** -/
theorem step (h : OrderInvariant s) {a : Action} {t : State}
    (hstep : Step s a t) : OrderInvariant t := by
  cases hstep with
  | insert id text => exact h.begin rfl rfl
  | query minId limit => exact h.begin rfl rfl
  | close => exact h.begin rfl rfl
  | wakeSpuriously c call hc =>
      exact h.withCalls (map_set_of_eq _ hc call.effect_wake)
        (map_set_of_eq _ hc call.hasReturned_wake)
  | move c old new x notify hc hmove _ =>
      exact (h.responds hc hmove).withCalls
        (map_ite_map_of_eq _ Call.effect_wake notify _)
        (map_ite_map_of_eq _ Call.hasReturned_wake notify _)
  | preadFails c minId limit admitted iter hc _ =>
      refine h.withCalls (map_set_of_eq _ hc ?_) (map_set_of_eq _ hc rfl)
      cases admitted <;> rfl

end OrderInvariant

theorem Step.order_grows {s t : State} {a : Action} (h : Step s a t) :
    s.index.order <+: t.index.order := by
  cases h with
  | move c old new x notify _ hmove _ => exact hmove.order_grows
  | _ => exact List.prefix_rfl

end GoPrep.Ports.IteratorPlusIndex
