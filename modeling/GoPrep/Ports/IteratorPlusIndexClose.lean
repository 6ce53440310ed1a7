import GoPrep.Ports.IteratorPlusIndexLog

/-!
# `Close` drains

`inFlight` counts the calls between their `enter` and their `leave`, on every
path through them, and a `Close` returns only when it has set `closed` and
found the count zero.  From then on `enter` turns every call away, so nothing
that changes the file or the map can run again.

## Main results

* `CloseInvariant.step` — the count, in all interleavings.
* `DrainedSince.step` — once any `Close` has returned the index stays as it
  is, and a call that had not returned by then can only be rejected.
-/

namespace GoPrep.Ports.IteratorPlusIndex

open GoPrep.Ports.IndexRecord
open GoPrep.Verified.ByteFile
open GoPrep.Verified.RealTime
open GoPrep.Verified.ThreadTable
open GoPrep.Verified.Transition

/-- The call has passed `enter` and has not yet run `leave`. -/
def Call.entered : Call → Bool
  | .insert _ _ .append => true
  | .insert _ _ .appending => true
  | .insert _ _ (.update _) => true
  | .insert _ _ (.updating _) => true
  | .insert _ _ (.leave _) => true
  | .insert _ _ (.leaving _) => true
  | .query _ _ .traverse => true
  | .query _ _ .traversing => true
  | .query _ _ (.leave _) => true
  | .query _ _ (.leaving _) => true
  | _ => false

/-- The call is a `Close` that has set `closed`. -/
def Call.hasClosed : Call → Bool
  | .close .lock => false
  | .close .locked => false
  | .close _ => true
  | _ => false

@[simp] theorem Call.entered_wake (call : Call) :
    call.wake.entered = call.entered :=
  call.wake_eq Call.entered rfl

@[simp] theorem Call.hasClosed_wake (call : Call) :
    call.wake.hasClosed = call.hasClosed :=
  call.wake_eq Call.hasClosed rfl

/-- The count, and what a `Close` that has returned has seen. -/
structure CloseInvariant (s : State) : Prop where
  inFlight_eq : s.index.inFlight = (s.calls.countP Call.entered : Int)
  closed : ∀ call ∈ s.calls, call.hasClosed = true → s.index.closed = true
  drained : Call.close .returned ∈ s.calls → s.index.inFlight = 0

theorem closeInvariant_initial : CloseInvariant .initial where
  inFlight_eq := rfl
  closed := by simp [State.initial]
  drained := by simp [State.initial]

/-- A wake leaves every returned `Close` as it was, and makes none. -/
theorem Call.wake_eq_returned {call : Call} :
    call.wake = .close .returned ↔ call = .close .returned := by
  unfold Call.wake
  split <;> simp

namespace Moves

variable {x y : Index} {c : Nat} {old new : Call} {notify : Bool}

/-- `inFlight` moves with the call that enters or leaves. -/
theorem inFlight_eq (h : Moves x c old new y notify) :
    y.inFlight + (if old.entered then 1 else 0 : Nat) =
      x.inFlight + (if new.entered then 1 else 0 : Nat) := by
  cases h with
  | insertAdmitted => simp [Call.entered, Index.enter]
  | queryAdmitted => simp [Call.entered, Index.enter]
  | insertLeft => simp [Call.entered, Index.leave]
  | queryLeft => simp [Call.entered, Index.leave]
  | _ => rfl

theorem closed_of_closed (h : Moves x c old new y notify)
    (hx : x.closed = true) : y.closed = true := by
  cases h with
  | closeReturns _ => rfl
  | closeWaits _ => rfl
  | _ => exact hx

/-- A `Close` has set the flag by the time it sleeps or returns. -/
theorem closed_of_hasClosed (h : Moves x c old new y notify)
    (hold : old.hasClosed = true → x.closed = true)
    (hnew : new.hasClosed = true) : y.closed = true := by
  cases h with
  | closeReturns _ => rfl
  | closeWaits _ => rfl
  | closeRelocks => exact hold rfl
  | closeReturnsWoken _ => exact hold rfl
  | closeWaitsAgain _ => exact hold rfl
  | _ => cases hnew

/-- A `Close` returns on a count of zero. -/
theorem inFlight_of_returned (h : Moves x c old new y notify)
    (hnew : new = .close .returned) : y.inFlight = 0 := by
  subst hnew
  cases h with
  | closeReturns hzero => exact hzero
  | closeReturnsWoken hzero => exact hzero

end Moves

namespace CloseInvariant

variable {s : State}

theorem begin (h : CloseInvariant s) {call : Call}
    (hentered : call.entered = false) (hclosed : call.hasClosed = false) :
    CloseInvariant (s.begin call) where
  inFlight_eq := by
    simp only [State.begin, List.countP_append, List.countP_singleton,
      hentered]
    simpa using h.inFlight_eq
  closed := forall_mem_concat h.closed fun hcall => by
    rw [hclosed] at hcall
    cases hcall
  drained := by
    intro hmem
    rcases List.mem_append.mp hmem with hmem | hmem
    · exact h.drained hmem
    · rw [← List.mem_singleton.mp hmem] at hclosed
      cases hclosed

/-- Calls that change without entering, leaving or closing. -/
theorem withCalls (h : CloseInvariant s) {calls : List Call}
    {history : List Event}
    (hentered : calls.map Call.entered = s.calls.map Call.entered)
    (hclosed : calls.map Call.hasClosed = s.calls.map Call.hasClosed)
    (hreturned : Call.close .returned ∈ calls →
      Call.close .returned ∈ s.calls) :
    CloseInvariant { s with calls := calls, history := history } where
  inFlight_eq := by
    rw [countP_congr_map hentered]
    exact h.inFlight_eq
  closed := by
    intro call hcall hcloses
    have hmem : call.hasClosed ∈ calls.map Call.hasClosed :=
      List.mem_map_of_mem hcall
    rw [hclosed, hcloses] at hmem
    obtain ⟨call', hcall', hcloses'⟩ := List.mem_map.mp hmem
    exact h.closed call' hcall' hcloses'
  drained := fun hmem => h.drained (hreturned hmem)

theorem moves (h : CloseInvariant s) {c : Nat} {old new : Call} {x : Index}
    {notify : Bool} (hc : s.calls[c]? = some old)
    (hmove : Moves s.index c old new x notify) :
    CloseInvariant { s with index := x, calls := s.calls.set c new } := by
  have hold := List.mem_of_getElem? hc
  have hcount := countP_set Call.entered hc new
  have hmoved := hmove.inFlight_eq
  have heq : x.inFlight = ((s.calls.set c new).countP Call.entered : Int) := by
    have hbefore := h.inFlight_eq
    omega
  refine ⟨heq, ?_, ?_⟩
  · exact forall_mem_set
      (fun call hcall hcloses =>
        hmove.closed_of_closed (h.closed call hcall hcloses))
      (hmove.closed_of_hasClosed (h.closed old hold))
  · intro hmem
    rcases List.mem_or_eq_of_mem_set hmem with hmem | hnew
    · -- the flag is set, so nothing enters, and nobody is left to leave
      have hzero := h.drained hmem
      have hbefore := h.inFlight_eq
      have hclosed := h.closed _ hmem rfl
      have hout : old.entered = false := by
        by_contra hin
        have hpos := List.countP_pos_iff.mpr
          ⟨old, hold, Bool.not_eq_false _ ▸ hin⟩
        omega
      have hstay : new.entered = false := by
        cases hmove with
        | insertAdmitted _ _ hopen =>
            rw [hclosed] at hopen
            cases hopen
        | queryAdmitted _ _ hopen =>
            rw [hclosed] at hopen
            cases hopen
        | _ => first | rfl | exact hout
      rw [hout, hstay] at hmoved
      simpa [hzero] using hmoved
    · exact hmove.inFlight_of_returned hnew.symm

/-- **Every step preserves the invariant.** -/
theorem step (h : CloseInvariant s) {a : Action} {t : State}
    (hstep : Step s a t) : CloseInvariant t := by
  cases hstep with
  | insert id text => exact h.begin rfl rfl
  | query minId limit => exact h.begin rfl rfl
  | close => exact h.begin rfl rfl
  | wakeSpuriously c call hc =>
      refine h.withCalls (map_set_of_eq _ hc call.entered_wake)
        (map_set_of_eq _ hc call.hasClosed_wake) fun hmem => ?_
      rcases List.mem_or_eq_of_mem_set hmem with hmem | hwake
      · exact hmem
      · rw [← Call.wake_eq_returned.mp hwake.symm]
        exact List.mem_of_getElem? hc
  | move c old new x notify hc hmove _ =>
      refine (h.moves hc hmove).withCalls
        (map_ite_map_of_eq _ Call.entered_wake notify _)
        (map_ite_map_of_eq _ Call.hasClosed_wake notify _) fun hmem => ?_
      cases notify with
      | false => exact hmem
      | true =>
          obtain ⟨call, hcall, hwake⟩ := List.mem_map.mp hmem
          rwa [← Call.wake_eq_returned.mp hwake]
  | preadFails c minId limit admitted iter hc _ =>
      refine h.withCalls (map_set_of_eq _ hc rfl) (map_set_of_eq _ hc rfl)
        fun hmem => ?_
      rcases List.mem_or_eq_of_mem_set hmem with hmem | hnew
      · exact hmem
      · cases hnew

end CloseInvariant

/-! ## After `Close` -/

/-- The call has not passed `enter`; if it has returned, it was rejected. -/
def Call.Barred : Call → Prop
  | .insert _ _ .enter => True
  | .insert _ _ .entering => True
  | .insert _ _ (.returned result) => result = .rejected
  | .insert _ _ _ => False
  | .query _ _ .enter => True
  | .query _ _ .entering => True
  | .query _ _ (.returned _ iter) => iter.fileOffsets = []
  | .query _ _ _ => False
  | .close _ => True

theorem Call.Barred.wake {call : Call} (h : call.Barred) :
    call.wake.Barred := by
  rwa [call.wake_eq Call.Barred rfl]

/-- A call without a part in the index does nothing to a closed one. -/
theorem Moves.of_closed {x y : Index} {c : Nat} {old new : Call}
    {notify : Bool} (h : Moves x c old new y notify)
    (hclosed : x.closed = true) (hentered : old.entered = false) :
    y = x ∧ new.entered = false ∧
      (old.hasReturned = true → new.hasReturned = true) ∧
      (old.Barred → new.Barred) := by
  have hsame : ({ x with closed := true } : Index) = x := by
    rw [← hclosed]
  cases h with
  | insertAdmitted _ _ hopen | queryAdmitted _ _ hopen =>
      exact absurd (hclosed.symm.trans hopen) (by simp)
  -- the calls that have entered
  | insertLocksFile | appends | appendFails | appendsShort | insertLocksMap
  | updates | insertLeaves | insertLeft | queryLocksMap | traverses
  | queryLeaves | queryLeft => exact Bool.noConfusion hentered
  -- the calls that have not
  | insertEnters | queryEnters | closeLocks | closeRelocks
  | closeWaitsAgain =>
      exact ⟨rfl, rfl, fun h => Bool.noConfusion h, fun _ => trivial⟩
  | insertRejected | queryRejected =>
      exact ⟨rfl, rfl, fun _ => rfl, fun _ => rfl⟩
  | closeReturns _ => exact ⟨hsame, rfl, fun _ => rfl, fun _ => trivial⟩
  | closeReturnsWoken _ => exact ⟨rfl, rfl, fun _ => rfl, fun _ => trivial⟩
  | closeWaits _ =>
      refine ⟨hsame, rfl, fun hreturned => ?_, fun _ => trivial⟩
      exact Bool.noConfusion hreturned
  -- the iterators
  | nexts minId limit admitted iter _ =>
      exact ⟨rfl, rfl, fun _ => rfl, iter.fileOffsets_next.trans⟩
  | preads minId limit admitted iter reading n _ _ _ =>
      exact ⟨rfl, rfl, fun _ => rfl,
        (iter.fileOffsets_readChunk reading _).trans⟩
  | closesIterator => exact ⟨rfl, rfl, fun _ => rfl, id⟩

/-- `t` comes after `s`, in which a `Close` had returned. -/
structure DrainedSince (s t : State) : Prop where
  index : t.index = s.index
  closed : t.index.closed = true
  entered : ∀ call ∈ t.calls, call.entered = false
  calls : ∀ (c : Nat) call, t.calls[c]? = some call → call.Barred ∨
    ((s.calls.map Call.hasReturned)[c]? = some true ∧
      call.hasReturned = true)

namespace DrainedSince

variable {s t u : State}

theorem refl (h : CloseInvariant s) (hs : Call.close .returned ∈ s.calls) :
    DrainedSince s s := by
  have hentered : ∀ call ∈ s.calls, call.entered = false := by
    have hzero := h.drained hs
    rw [h.inFlight_eq] at hzero
    have hcount : s.calls.countP Call.entered = 0 := by omega
    intro call hcall
    simpa using List.countP_eq_zero.mp hcount call hcall
  refine ⟨rfl, h.closed _ hs rfl, hentered, fun c call hc => ?_⟩
  have hout := hentered call (List.mem_of_getElem? hc)
  have hreturned : call.hasReturned = true →
      (s.calls.map Call.hasReturned)[c]? = some true := by
    intro hreturned
    rw [List.getElem?_map, hc, Option.map_some, hreturned]
  match call with
  | .insert _ _ .enter | .insert _ _ .entering => exact .inl trivial
  | .query _ _ .enter | .query _ _ .entering => exact .inl trivial
  | .close _ => exact .inl trivial
  | .insert _ _ (.returned _) => exact .inr ⟨hreturned rfl, rfl⟩
  | .query _ _ (.returned _ _) => exact .inr ⟨hreturned rfl, rfl⟩

theorem begin (h : DrainedSince s t) {call : Call}
    (hentered : call.entered = false) (hbarred : call.Barred) :
    DrainedSince s (t.begin call) where
  index := h.index
  closed := h.closed
  entered := forall_mem_concat h.entered hentered
  calls := by
    intro c other hc
    rcases getElem?_concat_eq_some.mp hc with hc | ⟨-, rfl⟩
    · exact h.calls c other hc
    · exact .inl hbarred

/-- A call that changes in place. -/
theorem set (h : DrainedSince s t) {c : Nat} {old new : Call}
    (history : List Event) (hc : t.calls[c]? = some old)
    (hentered : new.entered = false)
    (hreturned : old.hasReturned = true → new.hasReturned = true)
    (hbarred : old.Barred → new.Barred) :
    DrainedSince s { t with calls := t.calls.set c new, history := history }
    where
  index := h.index
  closed := h.closed
  entered := forall_mem_set h.entered hentered
  calls := by
    intro d call hd
    rw [getElem?_set_eq hc] at hd
    split at hd
    next hcd =>
      subst hcd
      obtain rfl := Option.some.inj hd
      exact (h.calls c old hc).imp hbarred fun hboth =>
        ⟨hboth.1, hreturned hboth.2⟩
    · exact h.calls d call hd

theorem wake (h : DrainedSince s t) :
    DrainedSince s { t with calls := t.calls.map Call.wake } where
  index := h.index
  closed := h.closed
  entered := forall_mem_map h.entered fun call hcall => by
    rwa [Call.entered_wake]
  calls := by
    intro c call hc
    rw [List.getElem?_map, Option.map_eq_some_iff] at hc
    obtain ⟨old, hold, rfl⟩ := hc
    refine (h.calls c old hold).imp Call.Barred.wake fun hboth =>
      ⟨hboth.1, ?_⟩
    rw [Call.hasReturned_wake]
    exact hboth.2

/-- **Every step after `Close` keeps the index as it was.** -/
theorem step (h : DrainedSince s t) {a : Action} (hstep : Step t a u) :
    DrainedSince s u := by
  cases hstep with
  | insert id text => exact h.begin rfl trivial
  | query minId limit => exact h.begin rfl trivial
  | close => exact h.begin rfl trivial
  | wakeSpuriously c call hc =>
      refine h.set t.history hc ?_ (fun hreturned => ?_) Call.Barred.wake
      · rw [Call.entered_wake]
        exact h.entered call (List.mem_of_getElem? hc)
      · rwa [Call.hasReturned_wake]
  | move c old new x notify hc hmove _ =>
      obtain ⟨rfl, hentered, hreturned, hbarred⟩ :=
        hmove.of_closed h.closed (h.entered old (List.mem_of_getElem? hc))
      have hset := h.set (t.history ++ respond c old new) hc hentered
        hreturned hbarred
      cases notify with
      | false => exact hset
      | true => exact hset.wake
  | preadFails c minId limit admitted iter hc _ =>
      exact h.set t.history hc rfl (fun _ => rfl) fun hbarred => hbarred

end DrainedSince

end GoPrep.Ports.IteratorPlusIndex
