import Mathlib.Data.List.Basic
import Mathlib.Data.List.Sublists

/-!
# Orders that respect real time

A history lists the invocations and responses of concurrent calls as they
happen.  An order of calls respects it when a call that has responded before
another was invoked comes first.  An order that grows by appending a call at
a point between its invocation and its response does so.
-/

namespace GoPrep.Verified.RealTime

inductive Event
  | invoke (c : Nat)
  | respond (c : Nat)
  deriving DecidableEq, Repr

/-- `a` stands before `b` in the list. -/
def Before {α : Type*} (l : List α) (a b : α) : Prop := [a, b].Sublist l

/-- Calls in the order that do not overlap in the history keep their order. -/
def RespectsRealTime (history : List Event) (order : List Nat) : Prop :=
  ∀ a ∈ order, ∀ b ∈ order,
    Before history (.respond a) (.invoke b) → Before order a b

namespace Before

variable {α : Type*} {l l' : List α} {a b c : α}

theorem fst_mem (h : Before l a b) : a ∈ l := by
  have hall := h.subset
  exact hall (by simp)

theorem append (h : Before l a b) (l' : List α) : Before (l ++ l') a b :=
  h.trans (List.sublist_append_left l l')

/-- A pair ends in the last element or was there before it. -/
theorem of_concat (h : Before (l ++ [c]) a b) : Before l a b ∨ b = c := by
  obtain ⟨xs, ys, heq, hxs, hys⟩ := List.sublist_append_iff.mp h
  rcases List.sublist_singleton.mp hys with rfl | rfl
  · rw [List.append_nil] at heq
    subst heq
    exact .inl hxs
  · right
    have hlast := congrArg List.getLast? heq
    simpa using hlast

theorem concat_of_mem (h : a ∈ l) (b : α) : Before (l ++ [b]) a b := by
  have hpair : [a] ++ [b] = [a, b] := rfl
  rw [Before, ← hpair]
  exact (List.singleton_sublist.mpr h).append (List.Sublist.refl _)

/-- What stands before an element that occurs once. -/
theorem mem_left (h : Before (l ++ b :: l') a b)
    (hnodup : (l ++ b :: l').Nodup) : a ∈ l := by
  have hb : b ∉ l' :=
    (List.nodup_cons.mp (hnodup.sublist (List.sublist_append_right _ _))).1
  obtain ⟨xs, ys, heq, hxs, hys⟩ := List.sublist_append_iff.mp h
  cases xs with
  | nil =>
      rw [List.nil_append] at heq
      subst heq
      have htail : [b].Sublist l' := List.cons_sublist_cons'.mp hys
        |>.elim (fun hrest => (List.sublist_cons_self _ _).trans hrest)
          fun hrest => hrest.2
      exact absurd (List.singleton_sublist.mp htail) hb
  | cons x xs =>
      obtain ⟨rfl, -⟩ := List.cons.inj heq
      exact hxs.subset List.mem_cons_self

theorem of_mem_left (h : a ∈ l) (b : α) (l' : List α) :
    Before (l ++ b :: l') a b := by
  have happend : l ++ b :: l' = (l ++ [b]) ++ l' := by simp
  rw [happend]
  exact (concat_of_mem h b).append l'

end Before

namespace RespectsRealTime

variable {history : List Event} {order : List Nat} {c : Nat}

theorem nil (history : List Event) : RespectsRealTime history [] :=
  fun _ ha => absurd ha List.not_mem_nil

/-- A call is not yet in the order when it is invoked. -/
theorem invoke (h : RespectsRealTime history order) (hc : c ∉ order) :
    RespectsRealTime (history ++ [.invoke c]) order := by
  intro a ha b hb hab
  rcases hab.of_concat with hab | hbc
  · exact h a ha b hb hab
  · cases hbc
    exact absurd hb hc

theorem respond (h : RespectsRealTime history order) (c : Nat) :
    RespectsRealTime (history ++ [.respond c]) order := by
  intro a ha b hb hab
  rcases hab.of_concat with hab | hbc
  · exact h a ha b hb hab
  · cases hbc

/-- **A call may take effect at any point before it responds.** -/
theorem linearize (h : RespectsRealTime history order)
    (hc : .respond c ∉ history) :
    RespectsRealTime history (order ++ [c]) := by
  intro a ha b hb hab
  have hac : a ≠ c := by
    rintro rfl
    exact hc hab.fst_mem
  have ha' : a ∈ order := by simpa [hac] using ha
  rcases List.mem_append.mp hb with hb | hb
  · exact (h a ha' b hb hab).append [c]
  · obtain rfl := List.mem_singleton.mp hb
    exact .concat_of_mem ha' b

end RespectsRealTime

end GoPrep.Verified.RealTime
