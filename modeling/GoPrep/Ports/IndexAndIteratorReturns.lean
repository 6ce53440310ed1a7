import GoPrep.Ports.IndexAndIteratorTable
import GoPrep.Verified.Inevitable

/-!
# Every call on the tab-separated index returns

No call takes a second lock while it holds one, so whoever holds a lock can go
on to release it.  A line may reach the file in pieces of any size; the lock
keeps the pieces of different lines apart.  Writes are taken not to fail.

## Main results

* `State.exists_ownStep` — some call that has not returned can move.
* `tab_calls_settle` — every schedule ends with all calls returned, and with
  the line of every `insert` in the file once.
-/

namespace GoPrep.Ports.IndexAndIterator

open GoPrep.Verified
open GoPrep.Verified.ByteFile
open GoPrep.Verified.Linearization
open GoPrep.Verified.ThreadTable
open GoPrep.Verified.Transition

/-- A step that moves a call on which has not returned. -/
def OwnStep (s : State) (a : Action) (t : State) : Prop :=
  Step s a t ∧ t.calls ≠ s.calls ∧ ∃ c call, a = .move c ∧
    s.calls[c]? = some call ∧ call.hasReturned = false

/-! ## Progress -/

/-- A bound on the moves of a call. -/
def Call.rank : Call → Nat
  | .insert id value .lockingFile => (Record.line ⟨id, value⟩).length + 6
  | .insert id value .telling => (Record.line ⟨id, value⟩).length + 5
  | .insert _ _ (.writing _ left) => left.length + 4
  | .insert _ _ (.lockingMap _) => 3
  | .insert _ _ (.updating _) => 2
  | .insert _ _ (.returned _) => 0
  | .query _ _ .lockingMap => 3
  | .query _ _ .traversing => 2
  | .query _ _ (.opening _) => 1
  | .query _ _ (.returned _ _) => 0

def State.rank (s : State) : Nat := (s.calls.map Call.rank).sum

theorem Moves.rank_lt {x y : Index} {old new : Call} {effect : Option Effect}
    (h : Moves x old new y effect) (hreturned : old.hasReturned = false)
    (hne : new ≠ old) : new.rank < old.rank := by
  cases h with
  | puts id value currenOffset piece left =>
      cases piece with
      | nil => exact absurd rfl hne
      | cons b piece =>
          show left.length + 4 < (b :: piece ++ left).length + 4
          rw [List.length_append, List.length_cons]
          omega
  | nexts => cases hreturned
  | _ => simp [Call.rank]

theorem rank_ownStep {s t : State} {a : Action} (h : OwnStep s a t) :
    t.rank < s.rank := by
  obtain ⟨hstep, hmoved, c, call, rfl, hcall, hreturned⟩ := h
  cases hstep with
  | move _ old new index effect hc hmove _ =>
      obtain rfl := Option.some.inj (hc.symm.trans hcall)
      have hne : new ≠ old := by
        rintro rfl
        obtain ⟨hlt, hget⟩ := List.getElem?_eq_some_iff.mp hc
        exact hmoved (by rw [← hget, List.set_getElem_self])
      have hlower := hmove.rank_lt hreturned hne
      have hsum := sum_map_set Call.rank hc new
      show ((s.calls.set c new).map Call.rank).sum < s.rank
      rw [State.rank]
      omega

/-- The next move of a call that has not returned; with a lock in hand it
takes no other. -/
theorem Moves.exists_next (x : Index) {call : Call}
    (hreturned : call.hasReturned = false) :
    ∃ new y effect, Moves x call new y effect ∧ new ≠ call ∧
      (call.lock = none ∨ new.lock = call.lock ∨ new.lock = none) := by
  match call with
  | .insert id value .lockingFile =>
      exact ⟨_, _, _, .locksFile id value, by simp, .inl rfl⟩
  | .insert id value .telling =>
      exact ⟨_, _, _, .tells id value, by simp, .inr (.inl rfl)⟩
  | .insert id value (.writing currenOffset []) =>
      exact ⟨_, _, _, .flushes id value currenOffset, by simp,
        .inr (.inr rfl)⟩
  | .insert id value (.writing currenOffset (b :: left)) =>
      exact ⟨_, _, _, .puts id value currenOffset [b] left, by simp,
        .inr (.inl rfl)⟩
  | .insert id value (.lockingMap currenOffset) =>
      exact ⟨_, _, _, .locksMap id value currenOffset, by simp, .inl rfl⟩
  | .insert id value (.updating currenOffset) =>
      exact ⟨_, _, _, .updates id value currenOffset, by simp,
        .inr (.inr rfl)⟩
  | .query minId limit .lockingMap =>
      exact ⟨_, _, _, .sharesMap minId limit, by simp, .inl rfl⟩
  | .query minId limit .traversing =>
      exact ⟨_, _, _, .traverses minId limit, by simp, .inr (.inr rfl)⟩
  | .query minId limit (.opening collectedOffsets) =>
      exact ⟨_, _, _, .opens minId limit collectedOffsets true, by simp,
        .inl rfl⟩

theorem Call.lock_of_hasReturned {call : Call}
    (h : call.hasReturned = true) : call.lock = none := by
  match call with
  | .insert _ _ (.returned _) | .query _ _ (.returned _ _) => rfl

/-- Where no call holds a lock, any call may come to hold one. -/
theorem State.mayHold_of_free {s : State} {call : Call}
    (hfree : call.lock = none ∨ ∀ other ∈ s.calls, other.lock = none) :
    s.mayHold call = true := by
  unfold State.mayHold
  split
  · rfl
  · next lock hlock =>
      rcases hfree with hnone | hfree
      · rw [hnone] at hlock
        cases hlock
      · refine List.all_eq_true.mpr fun other hother => ?_
        rw [hfree other hother]

/-- **Some call that has not returned can move.** -/
theorem State.exists_ownStep {s : State} {call : Call}
    (hcall : call ∈ s.calls) (hreturned : call.hasReturned = false) :
    ∃ a t, OwnStep s a t := by
  have hgo : ∀ mover ∈ s.calls, mover.hasReturned = false →
      (mover.lock ≠ none ∨ ∀ other ∈ s.calls, other.lock = none) →
      ∃ a t, OwnStep s a t := by
    intro mover hmover hreturned hlock
    obtain ⟨c, hc⟩ := List.mem_iff_getElem?.mp hmover
    obtain ⟨new, y, effect, hmove, hne, hkeeps⟩ :=
      Moves.exists_next s.index hreturned
    have hmay : new.lock = mover.lock ∨ s.mayHold new = true := by
      rcases hlock with hheld | hfree
      · rcases hkeeps with hnone | hsame | hnone
        · exact absurd hnone hheld
        · exact .inl hsame
        · exact .inr (State.mayHold_of_free (.inl hnone))
      · exact .inr (State.mayHold_of_free (.inr hfree))
    refine ⟨_, _, .move s c mover new y effect hc hmove hmay, fun hsame => ?_,
      c, mover, rfl, hc, hreturned⟩
    have hset : (s.calls.set c new)[c]? = some new := by
      rw [getElem?_set_eq hc, if_pos rfl]
    rw [show s.calls.set c new = s.calls from hsame, hc] at hset
    exact hne (Option.some.inj hset).symm
  by_cases hheld : ∃ holder ∈ s.calls, holder.lock ≠ none
  · -- whoever holds a lock can go on to release it
    obtain ⟨holder, hholder, hlock⟩ := hheld
    refine hgo holder hholder ?_ (.inl hlock)
    cases hholds : holder.hasReturned with
    | false => rfl
    | true => exact absurd (Call.lock_of_hasReturned hholds) hlock
  · refine hgo call hcall hreturned (.inr fun other hother => ?_)
    by_contra hlock
    exact hheld ⟨other, hother, hlock⟩

/-! ## The calls at rest -/

/-- The record of an `insert`. -/
def Call.record : Call → Option Record
  | .insert id value _ => some ⟨id, value⟩
  | .query _ _ _ => none

/-- All calls have returned; each has taken effect once, and behind the file
there was stand the lines of all `insert`s, each once and whole. -/
structure Settled (file : Bytes) (s : State) : Prop where
  returned : ∀ call ∈ s.calls, call.hasReturned = true
  effects : (s.order.map Prod.fst).Perm (List.range s.calls.length)
  table : ∃ records : List Record,
    records.Perm (s.calls.filterMap Call.record) ∧
      s.index.table = file ++ records.flatMap Record.line

/-- A call that has returned has taken effect, and has written its line. -/
theorem Call.of_hasReturned {call : Call} (h : call.hasReturned = true) :
    call.effect ≠ none ∧ call.landed.map Prod.fst = call.record ∧
      call.writing = none := by
  match call with
  | .insert _ _ (.returned _) | .query _ _ (.returned _ _) =>
      exact ⟨by simp [Call.effect], rfl, rfl⟩

theorem TableInvariant.settled {file : Bytes} {s : State}
    (h : TableInvariant file s) (hlinearizes : s.Linearizes)
    (hall : ∀ call ∈ s.calls, call.hasReturned = true) : Settled file s where
  returned := hall
  effects := by
    have heffects := hlinearizes.effects
    refine (List.perm_ext_iff_of_nodup heffects.nodup
      List.nodup_range).mpr fun c => ?_
    rw [List.mem_range]
    constructor
    · intro hmem
      obtain ⟨⟨c', e⟩, hce, rfl⟩ := List.mem_map.mp hmem
      exact heffects.lt_length hce
    · intro hlt
      have hc := List.getElem?_eq_getElem hlt
      obtain ⟨heffect, -⟩ :=
        Call.of_hasReturned (hall _ (List.mem_of_getElem? hc))
      obtain ⟨e, he⟩ := Option.ne_none_iff_exists'.mp heffect
      exact List.mem_map.mpr ⟨(c, e), (heffects.mem_iff_result hc).mpr he, rfl⟩
  table := by
    obtain ⟨log, part, hlines⟩ := h.lines
    have hwriting : s.calls.filterMap Call.writing = [] :=
      List.filterMap_eq_nil_iff.mpr fun call hcall =>
        (Call.of_hasReturned (hall call hcall)).2.2
    have hpart := hlines.partOf
    rw [hwriting] at hpart
    obtain rfl : part = [] := hpart
    have hrecords := hlines.landed.perm_filterMap.map Prod.fst
    rw [landings, Replay.map_snd_landings, Replay.map_fst_placedFrom,
      List.map_filterMap, List.filterMap_congr fun call hcall =>
        (Call.of_hasReturned (hall call hcall)).2.1] at hrecords
    refine ⟨log.map Prod.snd, hrecords, ?_⟩
    rw [hlines.table, List.append_nil, wholeLines]

/-- **Every call returns, and no line is lost, torn or written twice.**  From
every state reachable by any interleaving of `insert`s, `query`s and calls of
`next`, in whatever pieces the lines reach the file and whether or not the
files can be opened. -/
theorem tab_calls_settle {x : Index} {s : State}
    (hs : Reaches Step (.initial x) s) :
    Inevitable OwnStep (Settled x.table) s := by
  have hinv : ∀ {t}, Reaches Step (.initial x) t →
      TableInvariant x.table t ∧ t.Linearizes := fun ht =>
    ht.invariant (I := fun t => TableInvariant x.table t ∧ t.Linearizes)
      (fun _ _ _ h hstep => ⟨h.1.step hstep, hstep.linearizes h.2⟩)
      ⟨tableInvariant_initial x, .nil _ _⟩
  refine .of_rank (I := fun t => Reaches Step (.initial x) t) State.rank
    (fun _ _ _ hreach hstep => hreach.tail hstep.1)
    (fun _ _ _ _ hstep => rank_ownStep hstep) (fun t hreach hrest => ?_) hs
  obtain ⟨htable, hlinearizes⟩ := hinv hreach
  by_contra hnone
  apply hrest
  refine htable.settled hlinearizes fun call hcall => ?_
  by_contra hout
  exact hnone (State.exists_ownStep hcall (by simpa using hout))

/-- A line is half written, the next `insert` waits for the file and a
`query` has the map. -/
theorem tab_calls_settle_writing :
    ∃ s, Reaches Step (.initial ⟨[49, 9, 10], .empty⟩) s ∧
      s.index.table = [49, 9, 10, 53] ∧
      s.calls = [.insert 5 [97] (.writing 3 [9, 97, 10]),
        .insert 6 [] .lockingFile, .query 0 1 .traversing] ∧
      Inevitable OwnStep (Settled [49, 9, 10]) s := by
  have hbegun : Step (.initial ⟨[49, 9, 10], .empty⟩) (.insert 5 [97]) _ :=
    .insert _ _ _
  have htells := ((Reaches.single hbegun).tail
    (.move _ 0 _ _ _ _ rfl (.locksFile _ _) (.inr rfl))).tail
    (.move _ 0 _ _ _ _ rfl (.tells _ _) (.inl rfl))
  have hputs := htells.tail
    (.move _ 0 _ _ _ _ rfl (.puts 5 [97] 3 [53] [9, 97, 10]) (.inl rfl))
  have hall := ((hputs.tail (.insert _ 6 [])).tail (.query _ 0 1)).tail
    (.move _ 2 _ _ _ _ rfl (.sharesMap _ _) (.inr rfl))
  exact ⟨_, hall, rfl, rfl, tab_calls_settle hall⟩

end GoPrep.Ports.IndexAndIterator
