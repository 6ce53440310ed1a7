import GoPrep.Ports.IteratorPlusIndexClose

/-!
# `Close` misses no signal

`leave` notifies when it takes `inFlight` to zero, in the critical section in
which `Close` evaluates its predicate, so a `Close` sleeps only while calls
are in flight.  A call holds at most one lock and never waits for a second, so
a holder can always move on, and when nobody holds a lock any call that is not
asleep can take the one it needs.

## Main results

* `AsleepInvariant.step` — whoever sleeps in `Close`, some call is in flight.
* `Moves.exists_of_awake` — a call that has not returned and does not sleep has
  a move, which releases the lock it holds.
* `close_not_stranded` — no `Close` sleeps on a count of zero, and while a
  `Close` has not returned some call that has not returned can move.
-/

namespace GoPrep.Ports.IteratorPlusIndex

open GoPrep.Verified.ThreadTable
open GoPrep.Verified.Transition

/-! ## Sleepers -/

/-- A `Close` sleeps un-notified only while some call is in flight. -/
def AsleepInvariant (s : State) : Prop :=
  Call.close .asleep ∈ s.calls → s.index.inFlight ≠ 0

theorem asleepInvariant_initial : AsleepInvariant .initial := by
  simp [AsleepInvariant, State.initial]

theorem Call.wake_ne_asleep (call : Call) : call.wake ≠ .close .asleep := by
  unfold Call.wake
  split
  · simp
  · assumption

namespace Moves

variable {x y : Index} {c : Nat} {old new : Call} {notify : Bool}

/-- A move that takes the count to zero notifies. -/
theorem inFlight_ne_of_silent (h : Moves x c old new y notify)
    (hsilent : notify = false) (hnonneg : 0 ≤ x.inFlight)
    (hx : x.inFlight ≠ 0) : y.inFlight ≠ 0 := by
  cases h with
  | insertAdmitted _ _ _ | queryAdmitted _ _ _ =>
      show x.inFlight + 1 ≠ 0
      omega
  | insertLeft _ _ _ | queryLeft _ _ _ =>
      exact of_decide_eq_false hsilent
  | _ => exact hx

/-- A `Close` goes to sleep only on a count that is not zero. -/
theorem inFlight_ne_of_asleep (h : Moves x c old new y notify)
    (hnew : new = .close .asleep) : y.inFlight ≠ 0 := by
  subst hnew
  cases h with
  | closeWaits hne => exact hne
  | closeWaitsAgain hne => exact hne

end Moves

/-- **Every step preserves the invariant.** -/
theorem AsleepInvariant.step {s t : State} {a : Action}
    (h : AsleepInvariant s) (hclose : CloseInvariant s) (hstep : Step s a t) :
    AsleepInvariant t := by
  have hbegin : ∀ call, call ≠ .close .asleep →
      AsleepInvariant (s.begin call) := by
    intro call hne hmem
    rcases List.mem_append.mp hmem with hmem | hmem
    · exact h hmem
    · exact absurd (List.mem_singleton.mp hmem).symm hne
  cases hstep with
  | insert id text => exact hbegin _ (by simp)
  | query minId limit => exact hbegin _ (by simp)
  | close => exact hbegin _ (by simp)
  | wakeSpuriously c call hc =>
      intro hmem
      rcases List.mem_or_eq_of_mem_set hmem with hmem | hwake
      · exact h hmem
      · exact absurd hwake.symm call.wake_ne_asleep
  | move c old new x notify hc hmove _ =>
      intro hmem
      cases notify with
      | true =>
          obtain ⟨call, -, hwake⟩ := List.mem_map.mp hmem
          exact absurd hwake call.wake_ne_asleep
      | false =>
          rcases List.mem_or_eq_of_mem_set hmem with hmem | hnew
          · have hcount := hclose.inFlight_eq
            exact hmove.inFlight_ne_of_silent rfl (by omega) (h hmem)
          · exact hmove.inFlight_ne_of_asleep hnew.symm
  | preadFails c minId limit admitted iter hc _ =>
      intro hmem
      rcases List.mem_or_eq_of_mem_set hmem with hmem | hnew
      · exact h hmem
      · cases hnew

/-! ## Progress -/

/-- **A call that has not returned and does not sleep has a move**, and one
that holds a lock has a move that releases it. -/
theorem Moves.exists_of_awake (x : Index) (c : Nat) {call : Call}
    (hreturned : call.hasReturned = false) (hawake : call ≠ .close .asleep) :
    ∃ new y notify, Moves x c call new y notify ∧
      (call.lock ≠ none → new.lock = none) := by
  match call with
  | .insert id text pc =>
      cases pc with
      | enter => exact ⟨_, _, _, .insertEnters id text, by simp [Call.lock]⟩
      | entering =>
          cases hclosed : x.closed with
          | true =>
              exact ⟨_, _, _, .insertRejected id text hclosed, fun _ => rfl⟩
          | false =>
              exact ⟨_, _, _, .insertAdmitted id text hclosed, fun _ => rfl⟩
      | append =>
          exact ⟨_, _, _, .insertLocksFile id text, by simp [Call.lock]⟩
      | appending => exact ⟨_, _, _, .appends id text, fun _ => rfl⟩
      | update offset =>
          exact ⟨_, _, _, .insertLocksMap id text offset, by simp [Call.lock]⟩
      | updating offset =>
          exact ⟨_, _, _, .updates id text offset, fun _ => rfl⟩
      | leave result =>
          exact ⟨_, _, _, .insertLeaves id text result, by simp [Call.lock]⟩
      | leaving result =>
          exact ⟨_, _, _, .insertLeft id text result, fun _ => rfl⟩
      | returned result => cases hreturned
  | .query minId limit pc =>
      cases pc with
      | enter =>
          exact ⟨_, _, _, .queryEnters minId limit, by simp [Call.lock]⟩
      | entering =>
          cases hclosed : x.closed with
          | true =>
              exact ⟨_, _, _, .queryRejected minId limit hclosed, fun _ => rfl⟩
          | false =>
              exact ⟨_, _, _, .queryAdmitted minId limit hclosed, fun _ => rfl⟩
      | traverse =>
          exact ⟨_, _, _, .queryLocksMap minId limit, by simp [Call.lock]⟩
      | traversing => exact ⟨_, _, _, .traverses minId limit, fun _ => rfl⟩
      | leave fileOffsets =>
          exact ⟨_, _, _, .queryLeaves minId limit fileOffsets,
            by simp [Call.lock]⟩
      | leaving fileOffsets =>
          exact ⟨_, _, _, .queryLeft minId limit fileOffsets, fun _ => rfl⟩
      | returned admitted iter => cases hreturned
  | .close pc =>
      cases pc with
      | lock => exact ⟨_, _, _, .closeLocks, by simp [Call.lock]⟩
      | locked =>
          by_cases hzero : x.inFlight = 0
          · exact ⟨_, _, _, .closeReturns hzero, fun _ => rfl⟩
          · exact ⟨_, _, _, .closeWaits hzero, fun _ => rfl⟩
      | asleep => exact absurd rfl hawake
      | notified => exact ⟨_, _, _, .closeRelocks, by simp [Call.lock]⟩
      | relocked =>
          by_cases hzero : x.inFlight = 0
          · exact ⟨_, _, _, .closeReturnsWoken hzero, fun _ => rfl⟩
          · exact ⟨_, _, _, .closeWaitsAgain hzero, fun _ => rfl⟩
      | returned => cases hreturned

/-- A call takes a lock only while it holds none. -/
theorem Moves.lock_eq_none {x y : Index} {c : Nat} {old new : Call}
    {notify : Bool} (h : Moves x c old new y notify) :
    old.lock = none ∨ new.lock = none := by
  cases h <;> first | exact .inl rfl | exact .inr rfl

theorem Call.hasReturned_of_lock {call : Call} (h : call.lock ≠ none) :
    call.hasReturned = false := by
  unfold Call.hasReturned
  split <;> first | rfl | exact absurd rfl h

theorem Call.hasReturned_of_entered {call : Call}
    (h : call.entered = true) : call.hasReturned = false := by
  unfold Call.hasReturned
  split <;> first | rfl | cases h

/-- A call that has not returned can move. -/
def CanMove (s : State) : Prop :=
  ∃ c call t, s.calls[c]? = some call ∧ call.hasReturned = false ∧
    Step s (.move c) t

/-- Nothing is in the way of a call that needs no lock, or of any call when
nobody holds one. -/
theorem mayHold_of_free {s : State} {call : Call}
    (h : call.lock = none ∨ ∀ other ∈ s.calls, other.lock = none) :
    s.mayHold call = true := by
  unfold State.mayHold
  split
  · rfl
  next lock hlock =>
    rcases h with hnone | hfree
    · rw [hlock] at hnone
      cases hnone
    · rw [List.all_eq_true]
      intro other hother
      rw [hfree other hother]

theorem canMove_of_awake {s : State} {c : Nat} {call : Call}
    (hc : s.calls[c]? = some call) (hreturned : call.hasReturned = false)
    (hawake : call ≠ .close .asleep)
    (hlock : call.lock ≠ none ∨ ∀ other ∈ s.calls, other.lock = none) :
    CanMove s := by
  obtain ⟨new, y, notify, hmove, hreleases⟩ :=
    Moves.exists_of_awake s.index c hreturned hawake
  have hmay : s.mayHold new = true :=
    mayHold_of_free (hlock.imp_left hreleases)
  exact ⟨c, call, _, hc, hreturned, .move s c _ new y notify hc hmove hmay⟩

/-- **While some `Close` has not returned, some call can move.** -/
theorem canMove_of_closing {s : State} (hclose : CloseInvariant s)
    (hasleep : AsleepInvariant s) {call : Call} (hcall : call ∈ s.calls)
    (hreturned : call.hasReturned = false) : CanMove s := by
  by_cases hheld : ∃ holder ∈ s.calls, holder.lock ≠ none
  · -- whoever holds a lock can go on to release it
    obtain ⟨holder, hholder, hlock⟩ := hheld
    obtain ⟨c, hc⟩ := List.mem_iff_getElem?.mp hholder
    refine canMove_of_awake hc (Call.hasReturned_of_lock hlock) ?_
      (.inl hlock)
    rintro rfl
    exact hlock rfl
  · have hfree : ∀ other ∈ s.calls, other.lock = none := by
      intro other hother
      by_contra hlock
      exact hheld ⟨other, hother, hlock⟩
    by_cases hawake : call = .close .asleep
    · -- a sleeping `Close` waits for a call in flight, which is awake
      subst hawake
      have hcount := hclose.inFlight_eq
      have hne := hasleep hcall
      have hpos : 0 < s.calls.countP Call.entered := by omega
      obtain ⟨other, hother, hentered⟩ := List.countP_pos_iff.mp hpos
      obtain ⟨c, hc⟩ := List.mem_iff_getElem?.mp hother
      refine canMove_of_awake hc (Call.hasReturned_of_entered hentered) ?_
        (.inr hfree)
      rintro rfl
      cases hentered
    · obtain ⟨c, hc⟩ := List.mem_iff_getElem?.mp hcall
      exact canMove_of_awake hc hreturned hawake (.inr hfree)

/-- **`Close` is never stranded.**  In every reachable state a `Close` that
sleeps un-notified has calls in flight to wait for; a call that holds a lock
never goes on to take another; and while some `Close` has not returned, some
call that has not returned can move, without any spurious wakeup. -/
theorem close_not_stranded {s : State} (hs : Reaches Step .initial s) :
    (Call.close .asleep ∈ s.calls → s.index.inFlight ≠ 0) ∧
      (∀ c t old new, Step s (.move c) t → s.calls[c]? = some old →
        t.calls[c]? = some new → old.lock ≠ none → new.lock = none) ∧
      ∀ pc, Call.close pc ∈ s.calls → pc ≠ .returned → CanMove s := by
  obtain ⟨hclose, hasleep⟩ : CloseInvariant s ∧ AsleepInvariant s :=
    hs.invariant (I := fun s => CloseInvariant s ∧ AsleepInvariant s)
      (fun _ _ _ h hstep => ⟨h.1.step hstep, h.2.step h.1 hstep⟩)
      ⟨closeInvariant_initial, asleepInvariant_initial⟩
  refine ⟨hasleep, ?_, fun pc hcall hpc => ?_⟩
  · intro c t old new hstep hold hnew hlock
    cases hstep with
    | move _ old' new' x notify hc hmove _ =>
        obtain rfl := Option.some.inj (hc.symm.trans hold)
        have hlocks : ((if notify then (s.calls.set c new').map Call.wake
            else s.calls.set c new').map Call.lock)[c]? =
              some new'.lock := by
          rw [map_ite_map_of_eq _ fun call => call.wake_eq Call.lock rfl,
            List.getElem?_map, getElem?_set_eq hc, if_pos rfl]
          rfl
        rw [List.getElem?_map, hnew, Option.map_some,
          Option.some.injEq] at hlocks
        rw [hlocks]
        exact hmove.lock_eq_none.resolve_left hlock
  · refine canMove_of_closing hclose hasleep hcall ?_
    cases pc with
    | returned => exact absurd rfl hpc
    | _ => rfl

/-- A `Close` sleeps while an `Insert` that it waits for can move. -/
theorem close_not_stranded_asleep :
    ∃ s, Reaches Step .initial s ∧ Call.close .asleep ∈ s.calls ∧
      s.index.inFlight ≠ 0 ∧ CanMove s := by
  have hbegun : Step .initial (.insert 5 [97]) _ := .insert _ _ _
  have hadmitted := ((Reaches.single hbegun).tail
    (.move _ 0 _ _ _ _ rfl (.insertEnters _ _) rfl)).tail
    (.move _ 0 _ _ _ _ rfl (.insertAdmitted _ _ rfl) rfl)
  have hwaits := ((hadmitted.tail (.close _)).tail
    (.move _ 1 _ _ _ _ rfl .closeLocks rfl)).tail
    (.move _ 1 _ _ _ _ rfl (.closeWaits (by decide)) rfl)
  obtain ⟨s, hs, hcalls⟩ : ∃ s, Reaches Step .initial s ∧
      s.calls = [.insert 5 [97] .append, .close .asleep] :=
    ⟨_, hwaits, rfl⟩
  have hasleep : Call.close .asleep ∈ s.calls := by simp [hcalls]
  obtain ⟨hcount, -, hmoves⟩ := close_not_stranded hs
  exact ⟨s, hs, hasleep, hcount hasleep, hmoves .asleep hasleep (by simp)⟩

end GoPrep.Ports.IteratorPlusIndex
