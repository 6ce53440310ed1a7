import GoPrep.Ports.GoIndex

/-!
# What `Close` of the Go index waits for

`Close` cancels the context and waits until the wait group is empty.  An
`Insert` checks the context before it adds itself to the group, and between
the two it is in nobody's count: a `Close` that returns then does not wait for
it, and it goes on to append.

## Main results

* `CountInvariant.step` — the wait group counts the calls between their `Add`
  and their `Done`, in all interleavings.
* `WaitInvariant.step` — no waiter of the group is forgotten.
* `close_seals_iff` — from the moment a `Close` returns nothing changes any
  more exactly when no `Insert` stands between its check and its `Add` then.
* `insert_appends_after_close` — a run in which one does.
-/

namespace GoPrep.Ports.GoIndex

open GoPrep.Verified.ByteFile
open GoPrep.Verified.SortedMap
open GoPrep.Verified.ThreadTable
open GoPrep.Verified.Transition

namespace Call

/-- The call has counted itself with `wg.Add(1)`, and not out again. -/
def registered : Call → Bool
  | .insert _ _ .checking => false
  | .insert _ _ .adding => false
  | .insert _ _ (.releasing _) => false
  | .insert _ _ (.returned _) => false
  | .insert _ _ .donePanicked => false
  | .insert _ _ _ => true
  | .query _ _ .checking => false
  | .query _ _ .adding => false
  | .query _ _ (.releasing _) => false
  | .query _ _ (.returned _) => false
  | .query _ _ .donePanicked => false
  | .query _ _ _ => true
  | .close _ => false

/-- The call is an `Insert` between its check of `ctx.Done()` and its
`wg.Add(1)`. -/
def betweenCheckAndAdd : Call → Bool
  | .insert _ _ .adding => true
  | _ => false

/-- The call is in a `wg.Done()` that has brought the counter to zero, before
it wakes the waiters. -/
def isReleasing : Call → Bool
  | .insert _ _ (.releasing _) => true
  | .query _ _ (.releasing _) => true
  | _ => false

/-- The call is a `Close` that has run `cancel()`. -/
def hasCancelled : Call → Bool
  | .close .cancelling => false
  | .close _ => true
  | _ => false

@[simp] theorem registered_release (call : Call) :
    call.release.registered = call.registered := by
  unfold release
  split <;> rfl

@[simp] theorem hasCancelled_release (call : Call) :
    call.release.hasCancelled = call.hasCancelled := by
  unfold release
  split <;> rfl

@[simp] theorem lock_release (call : Call) :
    call.release.lock = call.lock := by
  unfold release
  split <;> rfl

@[simp] theorem hasPanicked_release (call : Call) :
    call.release.hasPanicked = call.hasPanicked := by
  unfold release
  split <;> rfl

@[simp] theorem isReleasing_release (call : Call) :
    call.release.isReleasing = call.isReleasing := by
  unfold release
  split <;> rfl

theorem release_ne_asleep (call : Call) : call.release ≠ .close .asleep := by
  intro heq
  unfold release at heq
  split at heq
  · cases heq
  next hne => exact hne heq

/-- Whoever holds a lock is registered. -/
theorem lock_of_not_registered {call : Call} (h : call.registered = false) :
    call.lock = none := by
  unfold lock
  split <;> first | rfl | cases h

end Call

/-! ## The wait group -/

structure CountInvariant (s : State) : Prop where
  wg_eq : s.index.wg = s.calls.countP Call.registered
  cancelled : ∀ call ∈ s.calls, call.hasCancelled = true →
    s.index.ctxDone = true

theorem countInvariant_initial : CountInvariant .initial where
  wg_eq := rfl
  cancelled := by simp [State.initial]

namespace Moves

variable {landing : List Record → Nat} {x y : Index} {old new : Call}
variable {released : Bool}

/-- A move counts its call in or out. -/
theorem wg_eq (h : Moves landing x old new y released)
    (hpos : old.registered = true → 0 < x.wg) :
    y.wg + (if old.registered then 1 else 0) =
      x.wg + (if new.registered then 1 else 0) := by
  cases h with
  | insertFinishes | insertFinishesLast | queryFinishes | queryFinishesLast =>
      have hpos' := hpos rfl
      show x.wg - 1 + 1 = x.wg + 0
      omega
  | _ => rfl

theorem ctxDone_of_ctxDone (h : Moves landing x old new y released)
    (hx : x.ctxDone = true) : y.ctxDone = true := by
  cases h with
  | cancels => rfl
  | _ => exact hx

theorem ctxDone_of_hasCancelled (h : Moves landing x old new y released)
    (hold : old.hasCancelled = true → x.ctxDone = true)
    (hnew : new.hasCancelled = true) : y.ctxDone = true := by
  cases h with
  | cancels => rfl
  | closeReturns | closeWaits | closeReturnsReleased | closePanics =>
      exact hold rfl
  | _ => cases hnew

/-- A `Close` returns on an empty wait group, and does nothing else then. -/
theorem eq_of_returned (h : Moves landing x old new y released)
    (hnew : new = .close .returned) :
    y = x ∧ released = false ∧ x.wg = 0 ∧ ∃ pc, old = .close pc := by
  subst hnew
  cases h with
  | closeReturns hzero => exact ⟨rfl, rfl, hzero, _, rfl⟩
  | closeReturnsReleased hzero _ => exact ⟨rfl, rfl, hzero, _, rfl⟩

/-- Only a call that has not panicked moves. -/
theorem hasPanicked_eq_false (h : Moves landing x old new y released) :
    old.hasPanicked = false := by
  cases h <;> rfl

/-- Waiters are forgotten only when they are woken. -/
theorem waiters_le (h : Moves landing x old new y released) :
    released = true ∨ x.waiters ≤ y.waiters := by
  cases h with
  | insertReleases | queryReleases => exact .inl rfl
  | closeWaits => exact .inr (Nat.le_succ _)
  | _ => exact .inr (Nat.le_refl _)

theorem waiters_of_asleep (h : Moves landing x old new y released)
    (hnew : new = .close .asleep) : y.waiters ≠ 0 := by
  cases h with
  | closeWaits => exact Nat.succ_ne_zero _
  | _ => cases hnew

/-- Whoever brings the counter to zero goes on to wake the waiters. -/
theorem isReleasing_of_awaited (h : Moves landing x old new y released)
    (hy : y.awaited = true) : new.isReleasing = true ∨
      (x.awaited = true ∧ old.isReleasing = false) := by
  have hzero := (of_decide_eq_true hy).1
  cases h with
  | insertFinishesLast | queryFinishesLast => exact .inl rfl
  | insertFinishes _ _ _ hfree | queryFinishes _ _ _ hfree =>
      cases hfree.symm.trans hy
  | insertAdds | insertMisuses | queryAdds | queryMisuses =>
      exact absurd hzero (Nat.succ_ne_zero _)
  | insertReleases | queryReleases => exact absurd rfl (of_decide_eq_true hy).2
  | insertDonePanics _ _ _ hne | queryDonePanics _ _ _ hne =>
      exact absurd hzero hne
  | closeWaits hne => exact absurd hzero hne
  | _ => exact .inr ⟨hy, rfl⟩

end Moves

namespace CountInvariant

variable {landing : List Record → Nat} {s t : State}

theorem begin (h : CountInvariant s) {call : Call}
    (hregistered : call.registered = false)
    (hcancelled : call.hasCancelled = false) :
    CountInvariant { s with calls := s.calls ++ [call] } where
  wg_eq := by
    simp only [List.countP_append, List.countP_singleton, hregistered]
    simpa using h.wg_eq
  cancelled := forall_mem_concat h.cancelled fun hcall => by
    rw [hcancelled] at hcall
    cases hcall

theorem moves (h : CountInvariant s) {c : Nat} {old new : Call} {x : Index}
    {released : Bool} (hc : s.calls[c]? = some old)
    (hmove : Moves landing s.index old new x released) :
    CountInvariant { index := x, calls := s.calls.set c new } where
  wg_eq := by
    have hcount := countP_set Call.registered hc new
    have hmoved := hmove.wg_eq fun hregistered => by
      rw [h.wg_eq]
      exact List.countP_pos_iff.mpr ⟨old, List.mem_of_getElem? hc, hregistered⟩
    have hbefore := h.wg_eq
    show x.wg = (s.calls.set c new).countP Call.registered
    omega
  cancelled := by
    have hold := h.cancelled old (List.mem_of_getElem? hc)
    exact forall_mem_set
      (fun call hcall hcancelled =>
        hmove.ctxDone_of_ctxDone (h.cancelled call hcall hcancelled))
      (hmove.ctxDone_of_hasCancelled hold)

theorem release (h : CountInvariant s) (released : Bool) :
    CountInvariant { s with
      calls := if released then s.calls.map Call.release else s.calls } where
  wg_eq := by
    rw [countP_congr_map (map_ite_map_of_eq _ Call.registered_release _ _)]
    exact h.wg_eq
  cancelled :=
    forall_mem_ite_map h.cancelled (fun call hcall hcancelled =>
      hcall (by rwa [Call.hasCancelled_release] at hcancelled)) released

/-- **Every step preserves the invariant.** -/
theorem step (h : CountInvariant s) {a : Action}
    (hstep : Step landing s a t) : CountInvariant t := by
  cases hstep.2 with
  | insert id text => exact h.begin rfl rfl
  | query minId limit => exact h.begin rfl rfl
  | close => exact h.begin rfl rfl
  | move c old new x released hc hmove _ =>
      exact (h.moves hc hmove).release released

theorem of_reaches (hs : Reaches (Step landing) .initial s) :
    CountInvariant s :=
  hs.invariant (fun _ _ _ h hstep => h.step hstep) countInvariant_initial

end CountInvariant

/-- No waiter is forgotten: while a `Close` sleeps it is counted, and when the
counter is at zero somebody is about to wake it. -/
structure WaitInvariant (s : State) : Prop where
  asleep : .close .asleep ∈ s.calls → s.index.waiters ≠ 0
  releasing : s.index.awaited = true → 0 < s.calls.countP Call.isReleasing

theorem waitInvariant_initial : WaitInvariant .initial where
  asleep := nofun
  releasing := nofun

namespace WaitInvariant

variable {landing : List Record → Nat} {s t : State}

theorem begin (h : WaitInvariant s) {call : Call}
    (hcall : call ≠ .close .asleep) :
    WaitInvariant { s with calls := s.calls ++ [call] } where
  asleep := fun hmem => by
    rcases List.mem_append.mp hmem with hmem | hmem
    · exact h.asleep hmem
    · exact absurd (List.mem_singleton.mp hmem).symm hcall
  releasing := fun hawaited => by
    rw [List.countP_append]
    exact Nat.add_pos_left (h.releasing hawaited) _

theorem step (h : WaitInvariant s) {a : Action}
    (hstep : Step landing s a t) : WaitInvariant t := by
  cases hstep.2 with
  | insert id text => exact h.begin nofun
  | query minId limit => exact h.begin nofun
  | close => exact h.begin nofun
  | move c old new x released hc hmove _ =>
      refine ⟨fun hmem => ?_, fun hawaited => ?_⟩
      · cases released with
        | true =>
            obtain ⟨call, -, hcall⟩ := List.mem_map.mp hmem
            exact absurd hcall call.release_ne_asleep
        | false =>
            rcases List.mem_or_eq_of_mem_set hmem with hmem | heq
            · have hle := hmove.waiters_le.resolve_left Bool.false_ne_true
              have hbefore := h.asleep hmem
              show x.waiters ≠ 0
              omega
            · exact hmove.waiters_of_asleep heq.symm
      · have hcount := countP_set Call.isReleasing hc new
        rw [countP_congr_map
          (map_ite_map_of_eq _ Call.isReleasing_release _ _)]
        rcases hmove.isReleasing_of_awaited hawaited with hnew | ⟨hx, hold⟩
        · rw [List.countP_pos_iff]
          exact ⟨new, List.mem_set (lt_length_of_getElem? hc) new, hnew⟩
        · rw [hold, if_neg Bool.false_ne_true] at hcount
          have hbefore := h.releasing hx
          omega

theorem of_reaches (hs : Reaches (Step landing) .initial s) :
    WaitInvariant s :=
  hs.invariant (fun _ _ _ h hstep => h.step hstep) waitInvariant_initial

end WaitInvariant

/-! ## After `Close` -/

/-- The call is an `Insert` that has passed its check and may still work. -/
def Call.inserting : Call → Bool
  | .insert _ _ .checking => false
  | .insert _ _ (.releasing _) => false
  | .insert _ _ (.returned _) => false
  | .insert _ _ .donePanicked => false
  | .insert _ _ _ => true
  | _ => false

theorem Call.inserting_release (call : Call) :
    call.release.inserting = call.inserting := by
  unfold release
  split <;> rfl

theorem Call.inserting_eq_false {call : Call}
    (hregistered : call.registered = false)
    (hbetween : call.betweenCheckAndAdd = false) :
    call.inserting = false := by
  match call with
  | .insert _ _ .checking | .insert _ _ (.releasing _)
  | .insert _ _ (.returned _) | .insert _ _ .donePanicked => rfl
  | .query _ _ _ | .close _ => rfl
  | .insert _ _ .adding => cases hbetween

/-- `t` comes after `s`, with no `Insert` admitted. -/
structure SealedSince (s t : State) : Prop where
  file : t.index.file = s.index.file
  indexMap : t.index.indexMap = s.index.indexMap
  ctxDone : t.index.ctxDone = true
  inserting : ∀ call ∈ t.calls, call.inserting = false

/-- Without an admitted `Insert` a move leaves the content alone. -/
theorem Moves.of_ctxDone {landing : List Record → Nat} {x y : Index}
    {old new : Call} {released : Bool}
    (h : Moves landing x old new y released) (hdone : x.ctxDone = true)
    (hold : old.inserting = false) :
    y.file = x.file ∧ y.indexMap = x.indexMap ∧ y.ctxDone = true ∧
      new.inserting = false := by
  cases h with
  | insertChecks _ _ hopen => exact absurd (hdone.symm.trans hopen) (by simp)
  | cancels => exact ⟨rfl, rfl, rfl, rfl⟩
  | insertRejected | insertReleases | insertDonePanics | queryRejected
  | queryChecks | queryAdds | queryMisuses | queryAddPanics | queryLocksMap
  | traverses | queryFinishes | queryFinishesLast | queryReleases
  | queryDonePanics | closeReturns | closeWaits | closeReturnsReleased
  | closePanics => exact ⟨rfl, rfl, hdone, rfl⟩
  | _ => cases hold

theorem SealedSince.step {landing : List Record → Nat} {s t u : State}
    (h : SealedSince s t) {a : Action} (hstep : Step landing t a u) :
    SealedSince s u := by
  have hbegin : ∀ call, call.inserting = false →
      SealedSince s { t with calls := t.calls ++ [call] } := fun call hcall =>
    ⟨h.file, h.indexMap, h.ctxDone, forall_mem_concat h.inserting hcall⟩
  cases hstep.2 with
  | insert id text => exact hbegin _ rfl
  | query minId limit => exact hbegin _ rfl
  | close => exact hbegin _ rfl
  | move c old new x released hc hmove _ =>
      obtain ⟨hfile, hmap, hdone, hnew⟩ :=
        hmove.of_ctxDone h.ctxDone (h.inserting old (List.mem_of_getElem? hc))
      refine ⟨hfile.trans h.file, hmap.trans h.indexMap, hdone, ?_⟩
      have hset := forall_mem_set (i := c) h.inserting hnew
      exact forall_mem_ite_map hset
        (fun call hcall => by rwa [Call.inserting_release]) released

/-! ## An `Insert` that nobody has counted -/

theorem hasPanicked_eq_false {s : State} (h : s.crashed = false) {call : Call}
    (hcall : call ∈ s.calls) : call.hasPanicked = false := by
  simpa using List.any_eq_false.mp h call hcall

theorem crashed_set {s : State} (h : s.crashed = false) {new : Call}
    (hnew : new.hasPanicked = false) (x : Index) (c : Nat) :
    State.crashed { index := x, calls := s.calls.set c new } = false := by
  rw [State.crashed, List.any_eq_false] at h ⊢
  exact forall_mem_set h (by simp [hnew])

/-- The `Insert` of call `c` has come to `pc`, with the index at `x`. -/
def State.insertAt (s : State) (c : Nat) (id : UInt64) (text : Bytes)
    (pc : InsertPc) (x : Index) : State :=
  { index := x, calls := s.calls.set c (.insert id text pc) }

theorem insertAt_self {s : State} {c : Nat} {id : UInt64} {text : Bytes}
    {pc : InsertPc} (hc : s.calls[c]? = some (.insert id text pc)) :
    s.insertAt c id text pc s.index = s := by
  have hcalls : s.calls.set c (.insert id text pc) = s.calls := by
    apply List.ext_getElem?
    intro d
    rw [getElem?_set_eq hc]
    split
    next hcd => rw [← hcd, hc]
    · rfl
  rw [State.insertAt, hcalls]

/-- Alone with the locks, an `Insert` goes from one counter to the next. -/
theorem step_insertAt {landing : List Record → Nat} {s : State} {c : Nat}
    {id : UInt64} {text : Bytes} {first pc pc' : InsertPc} {x y : Index}
    (hs : s.crashed = false) (hfree : ∀ call ∈ s.calls, call.lock = none)
    (hc : s.calls[c]? = some (.insert id text first))
    (hpc : (Call.insert id text pc).lock = none)
    (hmove : Moves landing x (.insert id text pc) (.insert id text pc') y
      false) :
    Step landing (s.insertAt c id text pc x) (.move c)
      (s.insertAt c id text pc' y) := by
  have hread : (s.insertAt c id text pc x).calls[c]? =
      some (.insert id text pc) := by
    rw [State.insertAt, getElem?_set_eq hc, if_pos rfl]
  have hmay : (s.insertAt c id text pc x).mayHold (.insert id text pc') =
      true := by
    have hnone : ∀ call ∈ (s.insertAt c id text pc x).calls,
        call.lock = none := forall_mem_set hfree hpc
    unfold State.mayHold
    split
    · rfl
    · rw [List.all_eq_true]
      intro call hcall
      rw [hnone call hcall]
  have hstep := Rule.move (s.insertAt c id text pc x) c _ _ y false hread
    hmove hmay
  simp only [State.insertAt, List.set_set] at hstep ⊢
  exact ⟨crashed_set hs hmove.hasPanicked_eq_false x c, hstep⟩

/-- **An `Insert` past its check appends, whatever the context says.** -/
theorem appends_of_adding (landing : List Record → Nat) {s : State} {c : Nat}
    {id : UInt64} {text : Bytes} (hs : s.crashed = false)
    (hawaited : s.index.awaited = false)
    (hfree : ∀ call ∈ s.calls, call.lock = none)
    (hc : s.calls[c]? = some (.insert id text .adding)) :
    ∃ t, Reaches (Step landing) s t ∧
      t.index.file = s.index.file ++ [⟨id, text⟩] := by
  have hadds : Step landing s (.move c)
      (s.insertAt c id text .opening s.index.add) := by
    have hmoves := step_insertAt hs hfree hc rfl
      (.insertAdds id text hawaited : Moves landing s.index _ _ _ false)
    rwa [insertAt_self hc] at hmoves
  have hopens : Step landing (s.insertAt c id text .opening s.index.add)
      (.move c) (s.insertAt c id text .locking s.index.add) :=
    step_insertAt hs hfree hc rfl (.opens id text)
  have hlocks : Step landing (s.insertAt c id text .locking s.index.add)
      (.move c) (s.insertAt c id text .writing s.index.add) :=
    step_insertAt hs hfree hc rfl (.insertLocksFile id text)
  -- the write needs no further lock
  have hread : (s.insertAt c id text .writing s.index.add).calls[c]? =
      some (.insert id text .writing) := by
    rw [State.insertAt, getElem?_set_eq hc, if_pos rfl]
  have hwrites := Rule.move _ c _ _ _ false hread
    (.writes id text : Moves landing s.index.add _ _ _ false) rfl
  exact ⟨_, (((Reaches.single hadds).tail hopens).tail hlocks).tail
    ⟨crashed_set hs rfl _ c, hwrites⟩, rfl⟩

/-- Whoever has brought the counter to zero can wake the waiters. -/
theorem Call.exists_wakes (landing : List Record → Nat) {x : Index}
    {call : Call} (hcall : call.isReleasing = true) (hzero : x.wg = 0) :
    ∃ new, Moves landing x call new x.reset true ∧ new.lock = none ∧
      new.hasPanicked = false := by
  match call with
  | .insert id text (.releasing err) =>
      exact ⟨_, .insertReleases id text err hzero, rfl, rfl⟩
  | .query minId limit (.releasing fileOffsets) =>
      exact ⟨_, .queryReleases minId limit fileOffsets hzero, rfl, rfl⟩

/-- The waiters are woken, and an `Insert` past its check stays there. -/
theorem reaches_woken (landing : List Record → Nat) {s : State} {c : Nat}
    {id : UInt64} {text : Bytes} (hwait : WaitInvariant s)
    (hs : s.crashed = false) (hfree : ∀ call ∈ s.calls, call.lock = none)
    (hc : s.calls[c]? = some (.insert id text .adding)) :
    ∃ t, Reaches (Step landing) s t ∧ t.crashed = false ∧
      t.index.awaited = false ∧ t.index.file = s.index.file ∧
      (∀ call ∈ t.calls, call.lock = none) ∧
      t.calls[c]? = some (.insert id text .adding) := by
  cases hawaited : s.index.awaited with
  | false => exact ⟨s, .refl, hs, hawaited, rfl, hfree, hc⟩
  | true =>
      obtain ⟨call, hmem, hreleasing⟩ :=
        List.countP_pos_iff.mp (hwait.releasing hawaited)
      obtain ⟨e, he⟩ := List.mem_iff_getElem?.mp hmem
      obtain ⟨new, hmove, hlock, hpanicked⟩ :=
        Call.exists_wakes landing hreleasing (of_decide_eq_true hawaited).1
      have hmay : s.mayHold new = true := by
        rw [State.mayHold, hlock]
      have hset : ∀ call ∈ (s.calls.set e new).map Call.release,
          call.lock = none ∧ call.hasPanicked = false := by
        have hbefore : ∀ call ∈ s.calls,
            call.lock = none ∧ call.hasPanicked = false := fun call hcall =>
          ⟨hfree call hcall, hasPanicked_eq_false hs hcall⟩
        exact forall_mem_map (forall_mem_set hbefore ⟨hlock, hpanicked⟩)
          fun call hcall => by
            rwa [Call.lock_release, Call.hasPanicked_release]
      refine ⟨_, .single ⟨hs, .move s e call new _ true he hmove hmay⟩, ?_, ?_,
        rfl, fun call hcall => (hset call hcall).1, ?_⟩
      · rw [State.crashed, List.any_eq_false]
        exact fun call hcall => by simp [(hset call hcall).2]
      · simp [Index.awaited, Index.reset]
      · have hne : call ≠ .insert id text .adding := by
          rintro rfl
          cases hreleasing
        show ((s.calls.set e new).map Call.release)[c]? = _
        rw [List.getElem?_map, getElem?_set_of_ne he hc hne new]
        rfl


/-! ## When `Close` seals the index -/

/-- The step by which a `Close` returns finds the wait group empty and changes
nothing else. -/
theorem Step.closeReturns {landing : List Record → Nat} {s t : State}
    {c : Nat} (h : Step landing s (.move c) t)
    (hreturned : t.calls[c]? = some (.close .returned)) :
    s.index.wg = 0 ∧ t.index = s.index ∧ t.crashed = false ∧
      ∃ pc, s.calls[c]? = some (.close pc) ∧
        t.calls = s.calls.set c (.close .returned) := by
  cases h.2 with
  | move _ old new x released hc hmove _ =>
      have hnew : new = .close .returned := by
        cases released with
        | false =>
            rw [if_neg (by simp), getElem?_set_eq hc, if_pos rfl] at hreturned
            exact Option.some.inj hreturned
        | true =>
            rw [if_pos rfl, List.getElem?_map, getElem?_set_eq hc, if_pos rfl]
              at hreturned
            have hrelease := Option.some.inj hreturned
            unfold Call.release at hrelease
            split at hrelease
            · cases hrelease
            · exact hrelease
      obtain ⟨rfl, rfl, hzero, pc, rfl⟩ := hmove.eq_of_returned hnew
      subst hnew
      exact ⟨hzero, rfl, crashed_set h.1 rfl _ c, pc, hc, rfl⟩

/-- **`Close` seals the index exactly when nobody stands between check and
`Add`.**  Take any step, of any reachable state, by which a `Close` returns.
In every continuation the file and `indexMap` stay as they are, if and only if
no `Insert` stands at that moment between its check of `ctx.Done()` and its
`wg.Add(1)`. -/
theorem close_seals_iff (landing : List Record → Nat) {s t : State} {c : Nat}
    (hs : Reaches (Step landing) .initial s)
    (hstep : Step landing s (.move c) t)
    (hreturned : t.calls[c]? = some (.close .returned)) :
    (∀ u, Reaches (Step landing) t u →
        u.index.file = t.index.file ∧ u.index.indexMap = t.index.indexMap) ↔
      ∀ call ∈ s.calls, call.betweenCheckAndAdd = false := by
  have hcount := CountInvariant.of_reaches (hs.tail hstep)
  have hwait := WaitInvariant.of_reaches (hs.tail hstep)
  obtain ⟨hzero, hindex, hcrashed, pc, hclose, hcalls⟩ :=
    hstep.closeReturns hreturned
  have hout : ∀ call ∈ t.calls, call.registered = false := by
    have hnone := hcount.wg_eq
    rw [hindex, hzero] at hnone
    intro call hcall
    simpa using List.countP_eq_zero.mp hnone.symm call hcall
  constructor
  · intro hsealed call hcall
    cases hbetween : call.betweenCheckAndAdd with
    | false => rfl
    | true =>
        -- it goes on to append
        exfalso
        match call with
        | .insert id text .adding =>
            obtain ⟨d, hd⟩ := List.mem_iff_getElem?.mp hcall
            have hd' : t.calls[d]? = some (.insert id text .adding) := by
              rw [hcalls]
              exact getElem?_set_of_ne hclose hd (by simp) _
            obtain ⟨r, hr, hrcrashed, hawaited, hrfile, hfree, hrd⟩ :=
              reaches_woken landing hwait hcrashed (fun call hcall =>
                Call.lock_of_not_registered (hout call hcall)) hd'
            obtain ⟨u, hu, hfile⟩ :=
              appends_of_adding landing hrcrashed hawaited hfree hrd
            have hsame := (hsealed u (hr.trans hu)).1
            rw [hfile, hrfile] at hsame
            simp at hsame
  · intro hbetween u hu
    have hinserting : ∀ call ∈ t.calls, call.inserting = false := by
      intro call hcall
      apply Call.inserting_eq_false (hout call hcall)
      rw [hcalls] at hcall
      rcases List.mem_or_eq_of_mem_set hcall with hcall | rfl
      · exact hbetween call hcall
      · rfl
    have hdone := hcount.cancelled _ (List.mem_of_getElem? hreturned) rfl
    have hsince := hu.invariant (fun _ _ _ h hstep => h.step hstep)
      (⟨rfl, rfl, hdone, hinserting⟩ : SealedSince t t)
    exact ⟨hsince.file, hsince.indexMap⟩

/-- Where the records of a file lie that stores each as its id and text. -/
private def landingOf (file : List Record) : Nat :=
  (file.map fun r => 8 + r.text.length).sum

/-- A `Close` that slept until an `Insert` was done seals the index. -/
theorem close_seals_iff_waits :
    ∃ t, Reaches (Step landingOf) .initial t ∧
      t.calls = [.insert 5 [97] (.returned none), .close .returned] ∧
      ∀ u, Reaches (Step landingOf) t u →
        u.index.file = t.index.file ∧ u.index.indexMap = t.index.indexMap := by
  have hbegun : Step landingOf .initial (.insert 5 [97]) _ :=
    ⟨rfl, .insert _ _ _⟩
  have hadded := ((Reaches.single hbegun).tail
    ⟨rfl, .move _ 0 _ _ _ _ rfl (.insertChecks _ _ rfl) rfl⟩).tail
    ⟨rfl, .move _ 0 _ _ _ _ rfl (.insertAdds _ _ rfl) rfl⟩
  have hasleep := ((hadded.tail ⟨rfl, .close _⟩).tail
    ⟨rfl, .move _ 1 _ _ _ _ rfl .cancels rfl⟩).tail
    ⟨rfl, .move _ 1 _ _ _ _ rfl (.closeWaits (by decide)) rfl⟩
  have hupdated := ((((hasleep.tail
    ⟨rfl, .move _ 0 _ _ _ _ rfl (.opens _ _) rfl⟩).tail
    ⟨rfl, .move _ 0 _ _ _ _ rfl (.insertLocksFile _ _) rfl⟩).tail
    ⟨rfl, .move _ 0 _ _ _ _ rfl (.writes _ _) rfl⟩).tail
    ⟨rfl, .move _ 0 _ _ _ _ rfl (.insertLocksMap _ _ _) rfl⟩).tail
    ⟨rfl, .move _ 0 _ _ _ _ rfl (.updates _ _ _) rfl⟩
  let s : State :=
    { index :=
        { file := [⟨5, [97]⟩]
          indexMap := OrderedMap.empty.insert 5 0
          wg := 0
          waiters := 0
          ctxDone := true }
      calls := [.insert 5 [97] (.returned none), .close .released] }
  have hdone : Reaches (Step landingOf) .initial s :=
    (hupdated.tail
      ⟨rfl, .move _ 0 _ _ _ _ rfl (.insertFinishesLast _ _ _ rfl) rfl⟩).tail
      ⟨rfl, .move _ 0 _ _ _ _ rfl (.insertReleases _ _ _ rfl) rfl⟩
  have hreturns : Step landingOf s (.move 1) _ :=
    ⟨rfl, .move _ 1 _ _ _ _ rfl (.closeReturnsReleased rfl rfl) rfl⟩
  exact ⟨_, hdone.tail hreturns, rfl,
    (close_seals_iff landingOf hdone hreturns rfl).mpr (by decide)⟩

/-- **An `Insert` that has checked the context appends after `Close` has
returned.** -/
theorem insert_appends_after_close :
    ∃ t u, Reaches (Step landingOf) .initial t ∧
      Call.close .returned ∈ t.calls ∧ Reaches (Step landingOf) t u ∧
      t.index.file = [] ∧ u.index.file = [⟨5, [97]⟩] := by
  have hbegun : Step landingOf .initial (.insert 5 [97]) _ :=
    ⟨rfl, .insert _ _ _⟩
  have hchecked := (Reaches.single hbegun).tail
    ⟨rfl, .move _ 0 _ _ _ _ rfl (.insertChecks _ _ rfl) rfl⟩
  let t : State :=
    { index := { Index.initial with ctxDone := true }
      calls := [.insert 5 [97] .adding, .close .returned] }
  have hreturned : Reaches (Step landingOf) .initial t :=
    ((hchecked.tail ⟨rfl, .close _⟩).tail
      ⟨rfl, .move _ 1 _ _ _ _ rfl .cancels rfl⟩).tail
      ⟨rfl, .move _ 1 _ _ _ _ rfl (.closeReturns rfl) rfl⟩
  have hadding : t.calls[0]? = some (.insert 5 [97] .adding) := rfl
  obtain ⟨u, hu, hfile⟩ :=
    appends_of_adding landingOf (by decide) (by decide) (by decide) hadding
  exact ⟨t, u, hreturned, by decide, hu, rfl, hfile⟩

end GoPrep.Ports.GoIndex
