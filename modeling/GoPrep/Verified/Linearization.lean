import GoPrep.Verified.RealTime
import GoPrep.Verified.ThreadTable

/-!
# Linearization

Calls of a concurrent object take effect at one step each, between their
invocation and their response.  `Linearizes` says that `order` lists the
effects so far and respects the history; it is kept by a call that begins, by
steps that neither take effect nor respond, and by a move of one call.
`Legal` relates the effects to a sequential object.

## Main results

* `Linearizes.move` — a call may take effect while it is pending, and respond.
* `before_unique` — an entry of the order has one place in it.
-/

namespace GoPrep.Verified.Linearization

open GoPrep.Verified.RealTime
open GoPrep.Verified.ThreadTable

variable {τ ε σ : Type*}

/-- The effects, one after the other, lead from one state of a sequential
object to another. -/
inductive Legal (Takes : σ → ε → σ → Prop) (s : σ) : List ε → σ → Prop
  | nil : Legal Takes s [] s
  | concat {effects : List ε} {t u : σ} {e : ε} : Legal Takes s effects t →
      Takes t e u → Legal Takes s (effects ++ [e]) u

namespace Legal

variable {Takes : σ → ε → σ → Prop} {s u : σ}

theorem of_concat {effects : List ε} {e : ε}
    (h : Legal Takes s (effects ++ [e]) u) :
    ∃ t, Legal Takes s effects t ∧ Takes t e u := by
  generalize hall : effects ++ [e] = all at h
  cases h with
  | nil => simp at hall
  | concat hfirst hlast =>
      obtain ⟨rfl, hsame⟩ := List.append_inj' hall rfl
      obtain rfl := (List.cons.inj hsame).1
      exact ⟨_, hfirst, hlast⟩

/-- The state between two stretches of effects. -/
theorem split {effects effects' : List ε}
    (h : Legal Takes s (effects ++ effects') u) :
    ∃ t, Legal Takes s effects t ∧ Legal Takes t effects' u := by
  induction effects' using List.reverseRecOn generalizing u with
  | nil =>
      rw [List.append_nil] at h
      exact ⟨u, h, .nil⟩
  | append_singleton effects' e ih =>
      rw [← List.append_assoc] at h
      obtain ⟨v, hfirst, hlast⟩ := h.of_concat
      obtain ⟨t, hbefore, hafter⟩ := ih hfirst
      exact ⟨t, hbefore, hafter.concat hlast⟩

/-- The state before one effect, and after. -/
theorem split_cons {effects effects' : List ε} {e : ε}
    (h : Legal Takes s (effects ++ e :: effects') u) :
    ∃ t t', Legal Takes s effects t ∧ Takes t e t' := by
  have happend : effects ++ e :: effects' = (effects ++ [e]) ++ effects' := by
    simp
  rw [happend] at h
  obtain ⟨t', hfirst, -⟩ := h.split
  obtain ⟨t, hbefore, htakes⟩ := hfirst.of_concat
  exact ⟨t, t', hbefore, htakes⟩

end Legal

/-- `order` lists the calls with an effect, each once, in an order that
respects the history of their invocations and responses. -/
structure Linearizes (effect : τ → Option ε) (returned : τ → Bool)
    (calls : List τ) (order : List (Nat × ε)) (history : List Event) :
    Prop where
  effects : Records effect calls order
  realTime : RespectsRealTime history (order.map Prod.fst)
  invoked : ∀ c, .invoke c ∈ history ↔ c < calls.length
  responded : ∀ c, .respond c ∈ history ↔
    (calls.map returned)[c]? = some true
  once : history.Nodup

/-- What is recorded of a run: a call takes effect, is invoked, or responds. -/
abbrev Observation (ε : Type*) := (Nat × ε) ⊕ Event

def orderOf (record : List (Observation ε)) : List (Nat × ε) :=
  record.filterMap Sum.getLeft?

def historyOf (record : List (Observation ε)) : List Event :=
  record.filterMap Sum.getRight?

@[simp] theorem orderOf_append (record record' : List (Observation ε)) :
    orderOf (record ++ record') = orderOf record ++ orderOf record' :=
  List.filterMap_append

@[simp] theorem historyOf_append (record record' : List (Observation ε)) :
    historyOf (record ++ record') = historyOf record ++ historyOf record' :=
  List.filterMap_append

/-- The response of call `c`, if it returns. -/
def respond (returned : τ → Bool) (c : Nat) (old new : τ) : List Event :=
  if returned old = false ∧ returned new = true then [.respond c] else []

/-- A call takes no effect, or does so while it is pending. -/
def TakesEffect (effect : τ → Option ε) (returned : τ → Bool) (c : Nat)
    (old new : τ) (order order' : List (Nat × ε)) : Prop :=
  (order' = order ∧ effect new = effect old) ∨
    ∃ e, effect old = none ∧ effect new = some e ∧
      order' = order ++ [(c, e)] ∧ returned old = false

namespace Linearizes

variable {effect : τ → Option ε} {returned : τ → Bool} {calls : List τ}
  {order order' : List (Nat × ε)} {history : List Event}

theorem nil (effect : τ → Option ε) (returned : τ → Bool) :
    Linearizes effect returned [] [] [] where
  effects := .nil _
  realTime := .nil _
  invoked := by simp
  responded := by simp
  once := List.nodup_nil

/-- A call is invoked. -/
theorem begin (h : Linearizes effect returned calls order history) {new : τ}
    (heffect : effect new = none) (hreturned : returned new = false) :
    Linearizes effect returned (calls ++ [new]) order
      (history ++ [.invoke calls.length]) where
  effects := h.effects.concat heffect
  realTime := by
    apply h.realTime.invoke
    intro hmem
    obtain ⟨entry, hentry, hcall⟩ := List.mem_map.mp hmem
    have hlt := h.effects.lt_length hentry
    omega
  invoked := by
    intro c
    simp only [List.mem_append, List.mem_singleton, h.invoked,
      Event.invoke.injEq, List.length_append, List.length_singleton]
    omega
  responded := by
    intro c
    simp only [List.map_append, List.map_singleton, getElem?_concat_eq_some,
      List.mem_append, List.mem_singleton, h.responded, hreturned]
    simp
  once := by
    refine List.nodup_append.mpr ⟨h.once, List.nodup_singleton _, ?_⟩
    intro event hevent event' hevent' heq
    rw [List.mem_singleton.mp hevent'] at heq
    rw [heq, h.invoked] at hevent
    omega

/-- Calls that change without taking effect or responding. -/
theorem congr (h : Linearizes effect returned calls order history)
    {calls' : List τ} (heffect : calls'.map effect = calls.map effect)
    (hreturned : calls'.map returned = calls.map returned) :
    Linearizes effect returned calls' order history where
  effects := h.effects.congr heffect
  realTime := h.realTime
  invoked := by
    have hlength := congrArg List.length heffect
    rw [List.length_map, List.length_map] at hlength
    rw [hlength]
    exact h.invoked
  responded := by
    rw [hreturned]
    exact h.responded
  once := h.once

/-- What a move of one call does to the order. -/
theorem moves (h : Linearizes effect returned calls order history) {c : Nat}
    {old new : τ} (hc : calls[c]? = some old)
    (heffect : TakesEffect effect returned c old new order order') :
    Records effect (calls.set c new) order' ∧
      RespectsRealTime history (order'.map Prod.fst) := by
  rcases heffect with ⟨rfl, hsame⟩ | ⟨e, hnone, hsome, rfl, hpending⟩
  · exact ⟨h.effects.set hc new hsame, h.realTime⟩
  · rw [List.map_append]
    refine ⟨h.effects.set_concat hc hnone hsome,
      h.realTime.linearize fun hmem => ?_⟩
    rw [h.responded, List.getElem?_map, hc, Option.map_some, hpending] at hmem
    cases hmem

/-- **A move of one call**, which may take effect and may respond. -/
theorem move (h : Linearizes effect returned calls order history) {c : Nat}
    {old new : τ} (hc : calls[c]? = some old)
    (heffect : TakesEffect effect returned c old new order order')
    (hreturned : returned old = true → returned new = true) :
    Linearizes effect returned (calls.set c new) order'
      (history ++ respond returned c old new) := by
  obtain ⟨heffects, hrealTime⟩ := h.moves hc heffect
  have hresponses : ∀ d : Nat, ((calls.set c new).map returned)[d]? =
      if c = d then some (returned new) else (calls.map returned)[d]? := by
    intro d
    rw [List.getElem?_map, getElem?_set_eq hc, List.getElem?_map]
    split <;> rfl
  unfold respond
  split
  next hresponds =>
    refine ⟨heffects, hrealTime.respond c, ?_, ?_, ?_⟩
    · simp [h.invoked]
    · intro d
      rw [List.mem_append, h.responded, hresponses]
      by_cases hcd : c = d
      · subst hcd
        simp [hresponds.2]
      · simp [hcd, Ne.symm hcd]
    · refine List.nodup_append.mpr ⟨h.once, List.nodup_singleton _, ?_⟩
      intro event hevent event' hevent' heq
      rw [List.mem_singleton.mp hevent'] at heq
      rw [heq, h.responded, List.getElem?_map, hc, Option.map_some,
        hresponds.1] at hevent
      cases hevent
  next hsilent =>
    have hsame : returned new = returned old := by
      cases hold : returned old with
      | true => exact hreturned hold
      | false => simpa [hold] using hsilent
    rw [List.append_nil]
    refine ⟨heffects, hrealTime, ?_, ?_, h.once⟩
    · simpa using h.invoked
    · rw [map_set_of_eq _ hc hsame]
      exact h.responded

end Linearizes

/-- The calls before a given one in the order are determined by it. -/
theorem before_unique {order before before' after after' : List (Nat × ε)}
    {entry : Nat × ε} (hnodup : (order.map Prod.fst).Nodup)
    (h : order = before ++ entry :: after)
    (h' : order = before' ++ entry :: after') : before = before' := by
  have hfresh : entry ∉ before ++ after := by
    have hentries := hnodup.of_map
    rw [h] at hentries
    exact (List.nodup_cons.mp (List.nodup_middle.mp hentries)).1
  rw [List.mem_append, not_or] at hfresh
  rw [h] at h'
  exact ((List.append_cons_inj_of_notMem hfresh.1 hfresh.2).mp h').1

end GoPrep.Verified.Linearization
