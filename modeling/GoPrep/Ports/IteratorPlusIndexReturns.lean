import GoPrep.Ports.IteratorPlusIndexProgress
import GoPrep.Verified.Inevitable

/-!
# Every call on the index returns

Three locks, a condition variable and a count of calls in flight: `Insert`
takes `lifeMu`, `writeMu`, `idxMu` and `lifeMu` again one after the other,
`Query` leaves out `writeMu`, and `Close` waits for both.  When no further
call begins and nobody wakes spuriously, all of them return, `Close` included,
whatever the file system answers.

## Main results

* `Moves.rank_lt` — a move of a call that has not returned pays for the
  sleepers it wakes.
* `calls_return` — from every reachable state, in every schedule, every call
  returns and no call is left in flight.
* `close_drains` — once any `Close` has returned, the count stays zero, the
  file and the map stay as they are, and every call that had not returned by
  then returns and is rejected.
-/

namespace GoPrep.Ports.IteratorPlusIndex

open GoPrep.Ports.IndexRecord
open GoPrep.Verified.ThreadTable
open GoPrep.Verified.Transition

/-- A step of a call that has not returned, not woken spuriously. -/
def OwnStep (s : State) (a : Action) (t : State) : Prop :=
  Step s a t ∧ ∃ c call, a = .move c ∧ s.calls[c]? = some call ∧
    call.hasReturned = false

/-! ## The rank -/

/-- A bound on the moves of a call, one of `count`, and of those it wakes. -/
def Call.rank (count : Nat) : Call → Nat
  | .insert _ _ .enter => 2 * count + 8
  | .insert _ _ .entering => 2 * count + 7
  | .insert _ _ .append => 2 * count + 6
  | .insert _ _ .appending => 2 * count + 5
  | .insert _ _ (.update _) => 2 * count + 4
  | .insert _ _ (.updating _) => 2 * count + 3
  | .insert _ _ (.leave _) => 2 * count + 2
  | .insert _ _ (.leaving _) => 2 * count + 1
  | .insert _ _ (.returned _) => 0
  | .query _ _ .enter => 2 * count + 6
  | .query _ _ .entering => 2 * count + 5
  | .query _ _ .traverse => 2 * count + 4
  | .query _ _ .traversing => 2 * count + 3
  | .query _ _ (.leave _) => 2 * count + 2
  | .query _ _ (.leaving _) => 2 * count + 1
  | .query _ _ (.returned _ _) => 0
  | .close .lock => 3
  | .close .locked => 2
  | .close .asleep => 1
  | .close .notified => 3
  | .close .relocked => 2
  | .close .returned => 0

def State.rank (s : State) : Nat :=
  (s.calls.map (Call.rank s.calls.length)).sum

theorem Call.rank_wake (count : Nat) (call : Call) :
    call.wake.rank count ≤ call.rank count + 2 := by
  unfold Call.wake
  split
  · exact Nat.le_refl _
  · exact Nat.le_add_right _ _

/-- **A move pays for the sleepers it wakes.** -/
theorem Moves.rank_lt {x y : Index} {c : Nat} {old new : Call}
    {notify : Bool} (h : Moves x c old new y notify)
    (hreturned : old.hasReturned = false) (count : Nat) :
    new.rank count + (if notify then 2 * count else 0) < old.rank count := by
  cases h with
  | insertLeft id text result =>
      simp only [Call.rank]
      split <;> omega
  | queryLeft minId limit fileOffsets =>
      simp only [Call.rank]
      split <;> omega
  | nexts minId limit admitted iter _ => cases hreturned
  | preads minId limit admitted iter reading n _ _ _ => cases hreturned
  | closesIterator minId limit admitted iter _ => cases hreturned
  | _ =>
      simp only [Call.rank, Bool.false_eq_true, if_false]
      omega

theorem rank_ownStep {s t : State} {a : Action} (h : OwnStep s a t) :
    t.rank < s.rank := by
  obtain ⟨hstep, c, call, rfl, hcall, hreturned⟩ := h
  cases hstep with
  | move _ old new index notify hc hmove _ =>
      obtain rfl := Option.some.inj (hc.symm.trans hcall)
      have hpaid := hmove.rank_lt hreturned s.calls.length
      have hsum := sum_map_set (Call.rank s.calls.length) hc new
      cases notify with
      | false =>
          simp only [State.rank, Bool.false_eq_true, if_false,
            List.length_set] at hpaid ⊢
          omega
      | true =>
          have hwoken := sum_map_map_le (Call.rank s.calls.length)
            (Call.rank_wake s.calls.length) (s.calls.set c new)
          rw [List.length_set] at hwoken
          simp only [State.rank, if_true, List.length_map,
            List.length_set] at hpaid ⊢
          omega

/-! ## The calls at rest -/

/-- Every call has returned, and none is in flight. -/
structure AllReturned (s : State) : Prop where
  returned : ∀ call ∈ s.calls, call.hasReturned = true
  inFlight_eq : s.index.inFlight = 0
  /-- A `Close` among them has closed the index. -/
  closed : Call.close .returned ∈ s.calls → s.index.closed = true

/-- A call that has returned is not in flight. -/
theorem CloseInvariant.allReturned {s : State} (h : CloseInvariant s)
    (hall : ∀ call ∈ s.calls, call.hasReturned = true) : AllReturned s where
  returned := hall
  inFlight_eq := by
    have hnone : s.calls.countP Call.entered = 0 := by
      apply List.countP_eq_zero.mpr
      intro call hcall hentered
      have hout := Call.hasReturned_of_entered hentered
      rw [hall call hcall] at hout
      cases hout
    rw [h.inFlight_eq, hnone]
    rfl
  closed := fun hmem => h.closed _ hmem rfl

/-- **Nothing keeps a call from returning.** -/
theorem inevitable_allReturned {s : State} (hclose : CloseInvariant s)
    (hasleep : AsleepInvariant s) : Inevitable OwnStep AllReturned s := by
  refine .of_rank (I := fun t => CloseInvariant t ∧ AsleepInvariant t)
    State.rank (fun _ _ _ h hstep =>
      ⟨h.1.step hstep.1, h.2.step h.1 hstep.1⟩)
    (fun _ _ _ _ hstep => rank_ownStep hstep) (fun t hinv hrest => ?_)
    ⟨hclose, hasleep⟩
  by_contra hnone
  apply hrest
  refine hinv.1.allReturned fun call hcall => ?_
  by_contra hout
  obtain ⟨c, mover, u, hc, hreturned, hstep⟩ :=
    canMove_of_closing hinv.1 hinv.2 hcall (by simpa using hout)
  exact hnone ⟨_, u, hstep, c, mover, rfl, hc, hreturned⟩

/-- The invariants of a reachable state. -/
theorem invariants_of_reaches {s : State} (hs : Reaches Step .initial s) :
    CloseInvariant s ∧ AsleepInvariant s :=
  hs.invariant (I := fun s => CloseInvariant s ∧ AsleepInvariant s)
    (fun _ _ _ h hstep => ⟨h.1.step hstep, h.2.step h.1 hstep⟩)
    ⟨closeInvariant_initial, asleepInvariant_initial⟩

/-- **Every call returns.**  From every reachable state, whatever calls are
under way, whoever holds which lock and whichever way the writes end. -/
theorem calls_return {s : State} (hs : Reaches Step .initial s) :
    Inevitable OwnStep AllReturned s :=
  inevitable_allReturned (invariants_of_reaches hs).1
    (invariants_of_reaches hs).2

/-- An `Insert` past its `enter`, a `Close` asleep and a `Query` that will be
rejected. -/
theorem calls_return_closing :
    ∃ s, Reaches Step .initial s ∧
      s.calls = [.insert 5 [97] .append, .close .asleep,
        .query 0 1 .enter] ∧
      Inevitable OwnStep AllReturned s := by
  have hbegun : Step .initial (.insert 5 [97]) _ := .insert _ _ _
  have hadmitted := ((Reaches.single hbegun).tail
    (.move _ 0 _ _ _ _ rfl (.insertEnters _ _) rfl)).tail
    (.move _ 0 _ _ _ _ rfl (.insertAdmitted _ _ rfl) rfl)
  have hwaits := ((hadmitted.tail (.close _)).tail
    (.move _ 1 _ _ _ _ rfl .closeLocks rfl)).tail
    (.move _ 1 _ _ _ _ rfl (.closeWaits (by decide)) rfl)
  have hqueried := hwaits.tail (.query _ 0 1)
  exact ⟨_, hqueried, rfl, calls_return hqueried⟩

/-! ## After a `Close` -/

/-- **`Close` drains.**  In every reachable state `inFlight` is the number of
calls between `enter` and `leave`.  From the moment a `Close` has returned it
is zero, the file, `writeOffset` and `indexMap` never change, and every call
that has not returned by then, or begins later, returns, in every schedule,
and can only be rejected: an `Insert` returns 1, a `Query` returns an iterator
without records. -/
theorem close_drains {s : State} (hs : Reaches Step .initial s) :
    s.index.inFlight = (s.calls.countP Call.entered : Int) ∧
      (Call.close .returned ∈ s.calls →
        ∀ t, Reaches Step s t →
          t.index.inFlight = 0 ∧ t.index.file = s.index.file ∧
          t.index.writeOffset = s.index.writeOffset ∧
          t.index.indexMap = s.index.indexMap ∧
          Inevitable OwnStep AllReturned t ∧
          ∀ c : Nat, (s.calls.map Call.hasReturned)[c]? ≠ some true →
            (∀ id text result,
              t.calls[c]? = some (.insert id text (.returned result)) →
              result.code = 1) ∧
            (∀ minId limit admitted iter,
              t.calls[c]? =
                some (.query minId limit (.returned admitted iter)) →
              iter.fileOffsets = [])) := by
  have hinv := (invariants_of_reaches hs).1
  refine ⟨hinv.inFlight_eq, fun hclosed t ht => ?_⟩
  have hdrained := ht.invariant (fun _ _ _ h hstep => h.step hstep)
    (DrainedSince.refl hinv hclosed)
  have hlater := invariants_of_reaches (hs.trans ht)
  rw [hdrained.index]
  refine ⟨hinv.drained hclosed, rfl, rfl, rfl,
    inevitable_allReturned hlater.1 hlater.2, fun c hc => ⟨?_, ?_⟩⟩
  · intro id text result hcall
    rcases hdrained.calls c _ hcall with hbarred | ⟨hreturned, -⟩
    · obtain rfl : result = .rejected := hbarred
      rfl
    · exact absurd hreturned hc
  · intro minId limit admitted iter hcall
    rcases hdrained.calls c _ hcall with hbarred | ⟨hreturned, -⟩
    · exact hbarred
    · exact absurd hreturned hc

/-- A `Close` waits for an `Insert` that has appended, and returns once it has
left; then an `Insert` and a `Query` begin, and both are turned away. -/
theorem close_drains_insert :
    ∃ s t u, Reaches Step .initial s ∧
      s.calls = [.insert 5 [97] (.returned (.inserted 0)),
        .close .returned] ∧
      Reaches Step s t ∧
      t.calls = s.calls ++ [.insert 6 [98] .enter, .query 0 10 .enter] ∧
      Inevitable OwnStep AllReturned t ∧ Reaches OwnStep t u ∧
      u.calls = s.calls ++ [.insert 6 [98] (.returned .rejected),
        .query 0 10 (.returned false (.new []))] ∧
      InsertResult.code .rejected = 1 ∧ (Iterator.new []).fileOffsets = [] ∧
      u.index.inFlight = 0 ∧ u.index.file = s.index.file := by
  have hbegun : Step .initial (.insert 5 [97]) _ := .insert _ _ _
  have happended := ((((Reaches.single hbegun).tail
    (.move _ 0 _ _ _ _ rfl (.insertEnters _ _) rfl)).tail
    (.move _ 0 _ _ _ _ rfl (.insertAdmitted _ _ rfl) rfl)).tail
    (.move _ 0 _ _ _ _ rfl (.insertLocksFile _ _) rfl)).tail
    (.move _ 0 _ _ _ _ rfl (.appends _ _) rfl)
  have hwaits := ((happended.tail (.close _)).tail
    (.move _ 1 _ _ _ _ rfl .closeLocks rfl)).tail
    (.move _ 1 _ _ _ _ rfl (.closeWaits (by decide)) rfl)
  have hleft := (((hwaits.tail
    (.move _ 0 _ _ _ _ rfl (.insertLocksMap _ _ _) rfl)).tail
    (.move _ 0 _ _ _ _ rfl (.updates _ _ _) rfl)).tail
    (.move _ 0 _ _ _ _ rfl (.insertLeaves _ _ _) rfl)).tail
    (.move _ 0 _ _ _ _ rfl (.insertLeft _ _ _) rfl)
  have hclosed := (hleft.tail
    (.move _ 1 _ _ _ _ rfl .closeRelocks rfl)).tail
    (.move _ 1 _ _ _ _ rfl (.closeReturnsWoken rfl) rfl)
  obtain ⟨⟨index, calls, history⟩, hs, hcalls, hshut⟩ :
      ∃ s, Reaches Step .initial s ∧
        s.calls = [.insert 5 [97] (.returned (.inserted 0)),
          .close .returned] ∧
        s.index.closed = true := ⟨_, hclosed, rfl, rfl⟩
  dsimp only at hcalls hshut
  subst hcalls
  have hlater : Reaches Step ⟨index, [.insert 5 [97]
      (.returned (.inserted 0)), .close .returned], history⟩ _ :=
    (Reaches.single (.insert _ 6 [98])).tail (.query _ 0 10)
  have hown : Reaches OwnStep (((State.mk index [.insert 5 [97]
      (.returned (.inserted 0)), .close .returned] history).begin
      (.insert 6 [98] .enter)).begin (.query 0 10 .enter)) _ :=
    (((Reaches.single
    ⟨.move _ 2 _ _ _ _ rfl (.insertEnters _ _) rfl, 2, _, rfl, rfl, rfl⟩).tail
    ⟨.move _ 2 _ _ _ _ rfl (.insertRejected _ _ hshut) rfl, 2, _, rfl, rfl,
      rfl⟩).tail
    ⟨.move _ 3 _ _ _ _ rfl (.queryEnters _ _) rfl, 3, _, rfl, rfl, rfl⟩).tail
    ⟨.move _ 3 _ _ _ _ rfl (.queryRejected _ _ hshut) rfl, 3, _, rfl, rfl,
      rfl⟩
  have hturnedAway : Reaches Step _ _ := hown.mono fun h => h.1
  have hdrains := (close_drains hs).2 (by simp)
  obtain ⟨-, -, -, -, hreturn, -⟩ := hdrains _ hlater
  obtain ⟨hcount, hfile, -, -, -, hrejected⟩ :=
    hdrains _ (hlater.trans hturnedAway)
  exact ⟨_, _, _, hs, rfl, hlater, rfl, hreturn, hown, rfl,
    (hrejected 2 (by simp)).1 6 [98] _ rfl,
    (hrejected 3 (by simp)).2 0 10 false _ rfl, hcount, hfile⟩

end GoPrep.Ports.IteratorPlusIndex
