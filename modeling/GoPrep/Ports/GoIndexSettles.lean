import GoPrep.Ports.GoIndexClose
import GoPrep.Verified.Inevitable

/-!
# The calls on the Go index settle

`Insert` takes the file lock and the map lock one after the other, `Query` the
map lock, and `Close` waits for the group.  When no further call begins, all
calls return, or a method of the wait group panics: a `Close` has slept, the
counter came to zero, and an `Insert` or `Query` adds itself before the `Close`
is out of `Wait`.

Such a call has passed its check of `ctx.Done()` before the context was
cancelled.  When none stands between check and `Add` at that moment, there is
no panic.

## Main results

* `go_calls_settle` — from every reachable state the calls return, or a
  method of the wait group panics.
* `close_never_panics` — no run panics in which each `cancel()` finds nobody
  between check and `Add`.
* `close_panics`, `operations_panic` — runs that do.
-/

namespace GoPrep.Ports.GoIndex

open GoPrep.Verified.ThreadTable
open GoPrep.Verified.Transition

/-- A step of a call already begun. -/
def OwnStep (landing : List Record → Nat) (s : State) (a : Action)
    (t : State) : Prop :=
  Step landing s a t ∧ ∃ c, a = .move c

/-! ## The rank -/

def InsertPc.rank : InsertPc → Nat
  | .checking => 9
  | .adding => 8
  | .opening => 7
  | .locking => 6
  | .writing => 5
  | .lockingMap _ => 4
  | .updating _ => 3
  | .finishing _ => 2
  | .releasing _ => 1
  | .misusing => 1
  | .returned _ => 0
  | .addPanicked => 0
  | .donePanicked => 0

def QueryPc.rank : QueryPc → Nat
  | .checking => 6
  | .adding => 5
  | .lockingMap => 4
  | .traversing => 3
  | .finishing _ => 2
  | .releasing _ => 1
  | .misusing => 1
  | .returned _ => 0
  | .addPanicked => 0
  | .donePanicked => 0

def ClosePc.rank : ClosePc → Nat
  | .cancelling => 4
  | .waiting => 3
  | .asleep => 2
  | .released => 1
  | .returned => 0
  | .panicked => 0

def Call.rank : Call → Nat
  | .insert _ _ pc => pc.rank
  | .query _ _ pc => pc.rank
  | .close pc => pc.rank

def State.rank (s : State) : Nat := (s.calls.map Call.rank).sum

theorem Call.rank_release (call : Call) : call.release.rank ≤ call.rank := by
  unfold release
  split
  · exact Nat.le_succ _
  · exact Nat.le_refl _

theorem Moves.rank_lt {landing : List Record → Nat} {x y : Index}
    {old new : Call} {released : Bool}
    (h : Moves landing x old new y released) : new.rank < old.rank := by
  cases h <;>
    simp only [Call.rank, InsertPc.rank, QueryPc.rank, ClosePc.rank] <;> omega

theorem rank_ownStep {landing : List Record → Nat} {s t : State} {a : Action}
    (h : OwnStep landing s a t) : t.rank < s.rank := by
  obtain ⟨⟨-, hrule⟩, c, rfl⟩ := h
  cases hrule with
  | move _ old new index released hc hmove _ =>
      have hlower := hmove.rank_lt
      have hsum := sum_map_set Call.rank hc new
      have hreleased := sum_map_map_le Call.rank (k := 0) Call.rank_release
        (s.calls.set c new)
      show ((if released then (s.calls.set c new).map Call.release
        else s.calls.set c new).map Call.rank).sum < _
      rw [State.rank]
      split <;> omega

/-! ## The calls at rest -/

def Call.hasReturned : Call → Bool
  | .insert _ _ (.returned _) => true
  | .query _ _ (.returned _) => true
  | .close .returned => true
  | _ => false

/-- The call is counted by the wait group, or about to wake its waiters. -/
def Call.inGroup (call : Call) : Bool := call.registered || call.isReleasing

/-- Every call has returned, and nobody is in the wait group. -/
structure AllReturned (s : State) : Prop where
  crashed : s.crashed = false
  returned : ∀ call ∈ s.calls, call.hasReturned = true
  wg_eq : s.index.wg = 0
  waiters_eq : s.index.waiters = 0

/-- No call can move. -/
def Stuck (landing : List Record → Nat) (s : State) : Prop :=
  ∀ a t, ¬ OwnStep landing s a t

/-- When no call holds a lock, every call may take the one it needs. -/
theorem mayHold_of_free {s : State} (hfree : ∀ call ∈ s.calls,
    call.lock = none) (call : Call) : s.mayHold call = true := by
  unfold State.mayHold
  split
  · rfl
  · rw [List.all_eq_true]
    intro other hother
    rw [hfree other hother]

namespace Stuck

variable {landing : List Record → Nat} {s : State} {c : Nat}
  {old new : Call} {index : Index} {released : Bool}

theorem no_move (hstuck : Stuck landing s) (hcrashed : s.crashed = false)
    (hc : s.calls[c]? = some old)
    (hmove : Moves landing s.index old new index released)
    (hmay : s.mayHold new = true) : False :=
  hstuck (.move c) _
    ⟨⟨hcrashed, .move s c old new index released hc hmove hmay⟩, c, rfl⟩

/-- Whoever holds a lock can move, so all locks are free. -/
theorem free (hstuck : Stuck landing s) (hcrashed : s.crashed = false) :
    ∀ call ∈ s.calls, call.lock = none := by
  intro call hcall
  obtain ⟨c, hc⟩ := List.mem_iff_getElem?.mp hcall
  cases call with
  | insert id text pc =>
      cases pc with
      | writing => exact (hstuck.no_move hcrashed hc (.writes id text) rfl).elim
      | updating byteOffset =>
          exact (hstuck.no_move hcrashed hc (.updates id text byteOffset)
            rfl).elim
      | _ => rfl
  | query minId limit pc =>
      cases pc with
      | traversing =>
          exact (hstuck.no_move hcrashed hc (.traverses minId limit) rfl).elim
      | _ => rfl
  | close pc => rfl

/-- An `Insert` or a `Query` has returned. -/
theorem worker_returned (hstuck : Stuck landing s)
    (hcrashed : s.crashed = false) {call : Call} (hcall : call ∈ s.calls)
    (hworker : ∀ pc, call ≠ .close pc) : call.hasReturned = true := by
  obtain ⟨c, hc⟩ := List.mem_iff_getElem?.mp hcall
  have hmay := mayHold_of_free (hstuck.free hcrashed)
  have hpanicked := hasPanicked_eq_false hcrashed hcall
  cases call with
  | insert id text pc =>
      cases pc with
      | checking =>
          cases hdone : s.index.ctxDone with
          | true =>
              exact (hstuck.no_move hcrashed hc (.insertRejected id text hdone)
                (hmay _)).elim
          | false =>
              exact (hstuck.no_move hcrashed hc (.insertChecks id text hdone)
                (hmay _)).elim
      | adding =>
          cases hawaited : s.index.awaited with
          | false =>
              exact (hstuck.no_move hcrashed hc (.insertAdds id text hawaited)
                (hmay _)).elim
          | true =>
              exact (hstuck.no_move hcrashed hc
                (.insertMisuses id text hawaited) (hmay _)).elim
      | misusing =>
          exact (hstuck.no_move hcrashed hc (.insertAddPanics id text)
            (hmay _)).elim
      | opening =>
          exact (hstuck.no_move hcrashed hc (.opens id text) (hmay _)).elim
      | locking =>
          exact (hstuck.no_move hcrashed hc (.insertLocksFile id text)
            (hmay _)).elim
      | writing =>
          exact (hstuck.no_move hcrashed hc (.writes id text) (hmay _)).elim
      | lockingMap byteOffset =>
          exact (hstuck.no_move hcrashed hc
            (.insertLocksMap id text byteOffset) (hmay _)).elim
      | updating byteOffset =>
          exact (hstuck.no_move hcrashed hc (.updates id text byteOffset)
            (hmay _)).elim
      | finishing err =>
          cases hawaited : s.index.finish.awaited with
          | false =>
              exact (hstuck.no_move hcrashed hc
                (.insertFinishes id text err hawaited) (hmay _)).elim
          | true =>
              exact (hstuck.no_move hcrashed hc
                (.insertFinishesLast id text err hawaited) (hmay _)).elim
      | releasing err =>
          by_cases hzero : s.index.wg = 0
          · exact (hstuck.no_move hcrashed hc
              (.insertReleases id text err hzero) (hmay _)).elim
          · exact (hstuck.no_move hcrashed hc
              (.insertDonePanics id text err hzero) (hmay _)).elim
      | returned err => rfl
      | addPanicked | donePanicked => cases hpanicked
  | query minId limit pc =>
      cases pc with
      | checking =>
          cases hdone : s.index.ctxDone with
          | true =>
              exact (hstuck.no_move hcrashed hc
                (.queryRejected minId limit hdone) (hmay _)).elim
          | false =>
              exact (hstuck.no_move hcrashed hc
                (.queryChecks minId limit hdone) (hmay _)).elim
      | adding =>
          cases hawaited : s.index.awaited with
          | false =>
              exact (hstuck.no_move hcrashed hc
                (.queryAdds minId limit hawaited) (hmay _)).elim
          | true =>
              exact (hstuck.no_move hcrashed hc
                (.queryMisuses minId limit hawaited) (hmay _)).elim
      | misusing =>
          exact (hstuck.no_move hcrashed hc (.queryAddPanics minId limit)
            (hmay _)).elim
      | lockingMap =>
          exact (hstuck.no_move hcrashed hc (.queryLocksMap minId limit)
            (hmay _)).elim
      | traversing =>
          exact (hstuck.no_move hcrashed hc (.traverses minId limit)
            (hmay _)).elim
      | finishing fileOffsets =>
          cases hawaited : s.index.finish.awaited with
          | false =>
              exact (hstuck.no_move hcrashed hc
                (.queryFinishes minId limit fileOffsets hawaited)
                (hmay _)).elim
          | true =>
              exact (hstuck.no_move hcrashed hc
                (.queryFinishesLast minId limit fileOffsets hawaited)
                (hmay _)).elim
      | releasing fileOffsets =>
          by_cases hzero : s.index.wg = 0
          · exact (hstuck.no_move hcrashed hc
              (.queryReleases minId limit fileOffsets hzero) (hmay _)).elim
          · exact (hstuck.no_move hcrashed hc
              (.queryDonePanics minId limit fileOffsets hzero) (hmay _)).elim
      | returned fileOffsets => rfl
      | addPanicked | donePanicked => cases hpanicked
  | close pc => exact absurd rfl (hworker pc)

/-- Nobody is counted by the wait group, or about to wake its waiters. -/
theorem not_inGroup (hstuck : Stuck landing s) (hcrashed : s.crashed = false)
    {call : Call} (hcall : call ∈ s.calls) : call.inGroup = false := by
  cases call with
  | insert id text pc =>
      have hreturned := hstuck.worker_returned hcrashed hcall nofun
      cases pc with
      | returned err => rfl
      | _ => cases hreturned
  | query minId limit pc =>
      have hreturned := hstuck.worker_returned hcrashed hcall nofun
      cases pc with
      | returned fileOffsets => rfl
      | _ => cases hreturned
  | close pc => rfl

theorem wg_eq_zero (hstuck : Stuck landing s) (hcrashed : s.crashed = false)
    (hcount : CountInvariant s) : s.index.wg = 0 := by
  rw [hcount.wg_eq, List.countP_eq_zero]
  intro call hcall hregistered
  have hout := hstuck.not_inGroup hcrashed hcall
  rw [Call.inGroup, hregistered] at hout
  cases hout

theorem waiters_eq_zero (hstuck : Stuck landing s)
    (hcrashed : s.crashed = false) (hcount : CountInvariant s)
    (hwait : WaitInvariant s) : s.index.waiters = 0 := by
  by_contra hne
  have hzero := hstuck.wg_eq_zero hcrashed hcount
  have hawaited : s.index.awaited = true := decide_eq_true ⟨hzero, hne⟩
  obtain ⟨call, hcall, hreleasing⟩ :=
    List.countP_pos_iff.mp (hwait.releasing hawaited)
  have hout := hstuck.not_inGroup hcrashed hcall
  rw [Call.inGroup, hreleasing, Bool.or_true] at hout
  cases hout

/-- **Calls that cannot move have returned.** -/
theorem allReturned (hstuck : Stuck landing s) (hcrashed : s.crashed = false)
    (hcount : CountInvariant s) (hwait : WaitInvariant s) :
    AllReturned s := by
  have hzero := hstuck.wg_eq_zero hcrashed hcount
  have hwaiters := hstuck.waiters_eq_zero hcrashed hcount hwait
  have hmay := mayHold_of_free (hstuck.free hcrashed)
  refine ⟨hcrashed, fun call hcall => ?_, hzero, hwaiters⟩
  obtain ⟨c, hc⟩ := List.mem_iff_getElem?.mp hcall
  cases call with
  | close pc =>
      cases pc with
      | cancelling =>
          exact (hstuck.no_move hcrashed hc .cancels (hmay _)).elim
      | waiting =>
          exact (hstuck.no_move hcrashed hc (.closeReturns hzero)
            (hmay _)).elim
      | asleep => exact absurd hwaiters (hwait.asleep hcall)
      | released =>
          exact (hstuck.no_move hcrashed hc
            (.closeReturnsReleased hzero hwaiters) (hmay _)).elim
      | returned => rfl
      | panicked => cases hasPanicked_eq_false hcrashed hcall
  | _ => exact hstuck.worker_returned hcrashed hcall (by simp)

end Stuck

/-- **The calls settle.**  From every reachable state, whatever calls are under
way and however the calls of the operating system end: when no further call
begins, in every schedule every call returns and the wait group is empty, or a
method of the wait group panics. -/
theorem go_calls_settle (landing : List Record → Nat) {s : State}
    (hs : Reaches (Step landing) .initial s) :
    Inevitable (OwnStep landing)
      (fun t => t.crashed = true ∨ AllReturned t) s := by
  refine .of_rank (I := fun t => Reaches (Step landing) .initial t)
    State.rank (fun _ _ _ hreach hstep => hreach.tail hstep.1)
    (fun _ _ _ _ hstep => rank_ownStep hstep) (fun t hreach hopen => ?_) hs
  by_contra hnone
  have hstuck : Stuck landing t := fun a u hstep => hnone ⟨a, u, hstep⟩
  cases hcrashed : t.crashed with
  | true => exact hopen (.inl hcrashed)
  | false =>
      exact hopen (.inr (hstuck.allReturned hcrashed
        (.of_reaches hreach) (.of_reaches hreach)))

/-- A `Close` asleep on an `Insert`, and a `Query` past its check. -/
def lateQuery : State :=
  { index := { Index.initial with wg := 1, waiters := 1, ctxDone := true }
    calls := [.insert 5 [97] .opening, .close .asleep, .query 0 1 .adding] }

theorem reaches_lateQuery :
    Reaches (Step fun _ => 0) .initial lateQuery := by
  have hbegun : Step (fun _ => 0) .initial (.insert 5 [97]) _ :=
    ⟨rfl, .insert _ _ _⟩
  have hadded := ((Reaches.single hbegun).tail
    ⟨rfl, .move _ 0 _ _ _ _ rfl (.insertChecks _ _ rfl) rfl⟩).tail
    ⟨rfl, .move _ 0 _ _ _ _ rfl (.insertAdds _ _ rfl) rfl⟩
  have hqueried := ((hadded.tail ⟨rfl, .close _⟩).tail
    ⟨rfl, .query _ 0 1⟩).tail
    ⟨rfl, .move _ 2 _ _ _ _ rfl (.queryChecks _ _ rfl) rfl⟩
  exact (hqueried.tail ⟨rfl, .move _ 1 _ _ _ _ rfl .cancels rfl⟩).tail
    ⟨rfl, .move _ 1 _ _ _ _ rfl (.closeWaits (by decide)) rfl⟩

theorem go_calls_settle_late :
    Inevitable (OwnStep fun _ => 0)
      (fun t => t.crashed = true ∨ AllReturned t) lateQuery :=
  go_calls_settle _ reaches_lateQuery

/-! ## When the wait group panics -/

/-- The call is between its check of `ctx.Done()` and its `wg.Add(1)`. -/
def Call.uncounted : Call → Bool
  | .insert _ _ .adding => true
  | .query _ _ .adding => true
  | _ => false

/-- The call is in a `wg.Add(1)` that is about to panic. -/
def Call.isMisusing : Call → Bool
  | .insert _ _ .misusing => true
  | .query _ _ .misusing => true
  | _ => false

/-- A `cancel()` finds nobody between check and `Add`. -/
def CancelsClean (s : State) : Action → Prop
  | .move c => s.calls[c]? = some (.close .cancelling) →
      ∀ call ∈ s.calls, call.uncounted = false
  | _ => True

/-- The call and the wait group cannot panic. -/
structure Call.Clean (x : Index) (call : Call) : Prop where
  panicked : call.hasPanicked = false
  misusing : call.isMisusing = false
  uncounted : x.ctxDone = true → call.uncounted = false
  releasing : call.isReleasing = true → x.ctxDone = true ∧ x.wg = 0
  released : call = .close .released →
    x.ctxDone = true ∧ x.wg = 0 ∧ x.waiters = 0

/-- Nobody can add to a wait group that a `Close` waits for. -/
structure CleanInvariant (s : State) : Prop where
  count : CountInvariant s
  waited : s.index.waiters ≠ 0 → s.index.ctxDone = true
  calls : ∀ call ∈ s.calls, call.Clean s.index

theorem cleanInvariant_initial : CleanInvariant .initial where
  count := countInvariant_initial
  waited := fun hne => absurd rfl hne
  calls := nofun

/-- A call that begins. -/
theorem Call.Clean.of_new {x : Index} {call : Call}
    (hpanicked : call.hasPanicked = false)
    (hmisusing : call.isMisusing = false)
    (huncounted : call.uncounted = false)
    (hreleasing : call.isReleasing = false)
    (hreleased : call ≠ .close .released) : call.Clean x where
  panicked := hpanicked
  misusing := hmisusing
  uncounted := fun _ => huncounted
  releasing := fun h => by
    rw [hreleasing] at h
    cases h
  released := fun h => absurd h hreleased

namespace Moves

variable {landing : List Record → Nat} {x y : Index} {old new : Call}
variable {released : Bool}

theorem ctxDone_cases (h : Moves landing x old new y released)
    (hdone : y.ctxDone = true) :
    x.ctxDone = true ∨ old = .close .cancelling := by
  cases h with
  | cancels => exact .inr rfl
  | _ => exact .inl hdone

/-- Only a call that nobody has counted moves the counter from zero. -/
theorem wg_eq_zero (h : Moves landing x old new y released)
    (hold : old.uncounted = false) (hx : x.wg = 0) : y.wg = 0 := by
  cases h with
  | insertAdds | insertMisuses | queryAdds | queryMisuses => cases hold
  | insertFinishes | insertFinishesLast | queryFinishes | queryFinishesLast =>
      show x.wg - 1 = 0
      omega
  | _ => exact hx

theorem waiters_eq_zero (h : Moves landing x old new y released)
    (hwg : x.wg = 0) (hx : x.waiters = 0) : y.waiters = 0 := by
  cases h with
  | closeWaits hne => exact absurd hwg hne
  | insertReleases | queryReleases => rfl
  | _ => exact hx

theorem wg_of_released (h : Moves landing x old new y released)
    (hreleased : released = true) : y.wg = 0 ∧ y.waiters = 0 := by
  cases h with
  | insertReleases _ _ _ hzero | queryReleases _ _ _ hzero =>
      exact ⟨hzero, rfl⟩
  | _ => cases hreleased

/-- Only a `Close` waits. -/
theorem waited (h : Moves landing x old new y released)
    (hold : old.hasCancelled = true → x.ctxDone = true)
    (hx : x.waiters ≠ 0 → x.ctxDone = true) (hy : y.waiters ≠ 0) :
    y.ctxDone = true := by
  cases h with
  | closeWaits => exact hold rfl
  | insertReleases | queryReleases => exact absurd rfl hy
  | cancels => rfl
  | _ => exact hx hy

/-- The other calls stay clean. -/
theorem clean_other (h : Moves landing x old new y released)
    (hold : old.Clean x) {call : Call} (hcall : call.Clean x)
    (hcancels : old = .close .cancelling → call.uncounted = false) :
    call.Clean y where
  panicked := hcall.panicked
  misusing := hcall.misusing
  uncounted := fun hdone => by
    rcases h.ctxDone_cases hdone with hdone | heq
    · exact hcall.uncounted hdone
    · exact hcancels heq
  releasing := fun hreleasing => by
    obtain ⟨hdone, hzero⟩ := hcall.releasing hreleasing
    exact ⟨h.ctxDone_of_ctxDone hdone,
      h.wg_eq_zero (hold.uncounted hdone) hzero⟩
  released := fun hreleased => by
    obtain ⟨hdone, hzero, hwaiters⟩ := hcall.released hreleased
    exact ⟨h.ctxDone_of_ctxDone hdone,
      h.wg_eq_zero (hold.uncounted hdone) hzero,
      h.waiters_eq_zero hzero hwaiters⟩

/-- **The call that moves stays clean.** -/
theorem clean_self (h : Moves landing x old new y released)
    (hold : old.Clean x) (hwaited : x.waiters ≠ 0 → x.ctxDone = true) :
    new.Clean y := by
  -- once the context is done nobody adds, so no `Add` is a misuse
  have hmisuse : x.awaited = true → old.uncounted = false :=
    fun hawaited => hold.uncounted (hwaited (of_decide_eq_true hawaited).2)
  cases h with
  | insertChecks _ _ hopen | queryChecks _ _ hopen =>
      exact ⟨rfl, rfl, fun hdone => (by cases hopen.symm.trans hdone),
        nofun, nofun⟩
  | insertMisuses _ _ hawaited | queryMisuses _ _ hawaited =>
      cases hmisuse hawaited
  | insertAddPanics | queryAddPanics => cases hold.misusing
  | insertFinishesLast _ _ _ hawaited | queryFinishesLast _ _ _ hawaited =>
      obtain ⟨hzero, hne⟩ := of_decide_eq_true hawaited
      exact ⟨rfl, rfl, fun _ => rfl, fun _ => ⟨hwaited hne, hzero⟩, nofun⟩
  | insertDonePanics _ _ _ hne | queryDonePanics _ _ _ hne =>
      exact absurd (hold.releasing rfl).2 hne
  | closePanics hmoved =>
      obtain ⟨-, hzero, hwaiters⟩ := hold.released rfl
      exact absurd hwaiters (hmoved.resolve_left (fun hne => hne hzero))
  | _ => exact .of_new rfl rfl rfl rfl nofun

end Moves

/-- A woken call stays clean. -/
theorem Call.Clean.release {x : Index} {call : Call} (h : call.Clean x)
    (hdone : call.hasCancelled = true → x.ctxDone = true)
    (hzero : x.wg = 0 ∧ x.waiters = 0) : call.release.Clean x := by
  unfold Call.release
  split
  · exact ⟨rfl, rfl, fun _ => rfl, nofun, fun _ => ⟨hdone rfl, hzero⟩⟩
  · exact h

/-- **A step whose `cancel()` is clean preserves the invariant.** -/
theorem CleanInvariant.step {landing : List Record → Nat} {s t : State}
    {a : Action} (h : CleanInvariant s) (hclean : CancelsClean s a)
    (hstep : Step landing s a t) : CleanInvariant t := by
  have hcount := h.count.step hstep
  cases hstep.2 with
  | insert | query | close =>
      exact ⟨hcount, h.waited,
        forall_mem_concat h.calls (.of_new rfl rfl rfl rfl nofun)⟩
  | move c old new index released hc hmove _ =>
      have hmem := List.mem_of_getElem? hc
      have hold := h.calls old hmem
      have hwaited := hmove.waited (h.count.cancelled old hmem) h.waited
      refine ⟨hcount, hwaited, ?_⟩
      have hset : ∀ call ∈ s.calls.set c new, call.Clean index ∧
          (call.hasCancelled = true → index.ctxDone = true) := by
        refine forall_mem_set (fun call hcall => ⟨?_, fun hcancelled => ?_⟩)
          ⟨hmove.clean_self hold h.waited,
            hmove.ctxDone_of_hasCancelled (h.count.cancelled old hmem)⟩
        · exact hmove.clean_other hold (h.calls call hcall)
            fun heq => hclean (heq ▸ hc) call hcall
        · exact hmove.ctxDone_of_ctxDone (h.count.cancelled call hcall
            hcancelled)
      cases released with
      | false => exact fun call hcall => (hset call hcall).1
      | true =>
          intro woken hwoken
          obtain ⟨call, hcall, rfl⟩ := List.mem_map.mp hwoken
          obtain ⟨hclean, hdone⟩ := hset call hcall
          exact hclean.release hdone (hmove.wg_of_released rfl)

/-- **The wait group panics only on a late `Add`.**  No run panics in which,
whenever a `Close` cancels the context, no `Insert` and no `Query` stands
between its check of `ctx.Done()` and its `wg.Add(1)`. -/
theorem close_never_panics (landing : List Record → Nat)
    {run : List (Action × State)} (hrun : IsRun (Step landing) .initial run)
    (hclean : StepsAll CancelsClean .initial run) :
    StatesAll (fun s => s.crashed = false) run := by
  intro entry hentry
  have hinv := statesAll_of_stepsAll
    (fun _ _ _ h hclean hstep => CleanInvariant.step h hclean hstep) hrun
    cleanInvariant_initial hclean entry hentry
  rw [State.crashed, List.any_eq_false]
  exact fun call hcall => by simp [(hinv.calls call hcall).panicked]

/-- An `Insert` that is counted when the context is cancelled. -/
theorem close_never_panics_counted :
    ∃ run : List (Action × State), IsRun (Step fun _ => 0) .initial run ∧
      run.map Prod.fst = [.insert 5 [97], .move 0, .move 0, .close, .move 1,
        .move 1] ∧
      StatesAll (fun s => s.crashed = false) run := by
  have hrun : IsRun (Step fun _ => 0) .initial
      [(_, _), (_, _), (_, _), (_, _), (_, _), (_, _)] :=
    ⟨⟨rfl, .insert _ 5 [97]⟩,
      ⟨rfl, .move _ 0 _ _ _ _ rfl (.insertChecks _ _ rfl) rfl⟩,
      ⟨rfl, .move _ 0 _ _ _ _ rfl (.insertAdds _ _ rfl) rfl⟩,
      ⟨rfl, .close _⟩, ⟨rfl, .move _ 1 _ _ _ _ rfl .cancels rfl⟩,
      ⟨rfl, .move _ 1 _ _ _ _ rfl (.closeWaits (by decide)) rfl⟩, trivial⟩
  refine ⟨_, hrun, rfl, close_never_panics _ hrun ?_⟩
  refine ⟨trivial, fun hc => ?_, fun hc => ?_, trivial, fun _ => ?_,
    fun hc => ?_, trivial⟩
  · cases hc
  · cases hc
  · decide
  · cases hc

/-- The `Insert` that `Close` sleeps on is done. -/
theorem reaches_insertDone : Reaches (Step fun _ => 0) .initial
    { index := { lateQuery.index with wg := 0 }
      calls := [.insert 5 [97] (.releasing (some "error opening the file")),
        .close .asleep, .query 0 1 .adding] } :=
  (reaches_lateQuery.tail
    ⟨rfl, .move _ 0 _ _ _ _ rfl (.openFails _ _) rfl⟩).tail
    ⟨rfl, .move _ 0 _ _ _ _ rfl (.insertFinishesLast _ _ _ rfl) rfl⟩

/-- **`Close` may panic.**  It has been woken, and the `Query` adds itself. -/
theorem close_panics :
    ∃ s, Reaches (Step fun _ => 0) .initial s ∧
      .close .panicked ∈ s.calls := by
  have hlate := (reaches_insertDone.tail
    ⟨rfl, .move _ 0 _ _ _ _ rfl (.insertReleases _ _ _ rfl) rfl⟩).tail
    ⟨rfl, .move _ 2 _ _ _ _ rfl (.queryAdds _ _ rfl) rfl⟩
  exact ⟨_, hlate.tail
    ⟨rfl, .move _ 1 _ _ _ _ rfl (.closePanics (by decide)) rfl⟩, by decide⟩

/-- **The operations may panic instead.**  The `Query` adds itself before the
waiters are woken: its own `Add` panics, or before it the `Done` of the
`Insert`. -/
theorem operations_panic :
    ∃ s t, Reaches (Step fun _ => 0) .initial s ∧
      Reaches (Step fun _ => 0) .initial t ∧
      .query 0 1 .addPanicked ∈ s.calls ∧
      .insert 5 [97] .donePanicked ∈ t.calls := by
  have hmisused := reaches_insertDone.tail
    ⟨rfl, .move _ 2 _ _ _ _ rfl (.queryMisuses _ _ rfl) rfl⟩
  exact ⟨_, _, hmisused.tail
      ⟨rfl, .move _ 2 _ _ _ _ rfl (.queryAddPanics _ _) rfl⟩,
    hmisused.tail
      ⟨rfl, .move _ 0 _ _ _ _ rfl (.insertDonePanics _ _ _ (by decide)) rfl⟩,
    by decide, by decide⟩

end GoPrep.Ports.GoIndex
