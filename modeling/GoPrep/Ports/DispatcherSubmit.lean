import GoPrep.Ports.DispatcherStop

/-!
# `Submit` against `Stop`

`Submit` guards its send with a `done` case, and `Stop` closes `done` before
`jobs`.  A `select` does not prefer one ready case over another, so once
`done` is closed the send case may still be taken: between the two closes it
places the job, after both it panics.

## Main results

* `SubmitSafe.step_iff` — from a safe state a step is safe exactly when the
  send case, if it is taken, finds `jobs` open, in a call begun before `done`
  was closed.
* `submitSafe_of_stopsBetweenSubmits` — along every run in which no `Submit`
  begins after `done` was closed and none stands at its `select` when `jobs` is
  closed, no `Submit` panics and none that began too late gets through;
  otherwise one can.
* `submit_panics_or_places_after_done` — runs of one worker in which a late
  `Submit` panics, and in which it places its job.
-/

namespace GoPrep.Ports.Dispatcher

open GoPrep.Verified.ThreadTable
open GoPrep.Verified.Transition

variable {Job : Type}

/-- The job a `Submit` has placed. -/
def SubmitCall.accepted (call : SubmitCall Job) : Option Job :=
  if call.pc = .accepted then some call.job else none

/-- The `done` flag only rises, and the history of placed jobs is that of the
calls that returned `nil`. -/
structure SubmitInvariant (s : State Job) : Prop where
  late : ∀ call ∈ s.submits, call.afterDone = true → s.done = true
  placed : Records SubmitCall.accepted s.submits s.placed

/-- The call is at its `select` with the `done` case ready, or has returned
an error. -/
def SubmitCall.Refused (s : State Job) (call : SubmitCall Job) : Prop :=
  call.pc = .ctxErr ∨ call.pc = .stopped ∨
    (call.pc = .atSelect ∧ s.done = true)

/-- No `Submit` has panicked; one begun after `done` was closed has placed
nothing and can only return an error. -/
def SubmitSafe (s : State Job) : Prop :=
  ∀ c call, s.submits[c]? = some call →
    call.pc ≠ .panicked ∧
    (call.afterDone = true →
      call.Refused s ∧ ∀ job, (c, job) ∉ s.placed)

/-- The send case, when taken, finds `jobs` open, in a call begun before
`done` was closed. -/
def SendsInTime (s : State Job) : Action Job → Prop
  | .submitSend c => s.jobsClosed = false ∧
      ∀ call, s.submits[c]? = some call → call.afterDone = false
  | _ => True

theorem submitInvariant_initial (workerCount : Nat) :
    SubmitInvariant (State.initial workerCount : State Job) where
  late := by simp [State.initial]
  placed := .nil _

theorem submitSafe_initial (workerCount : Nat) :
    SubmitSafe (State.initial workerCount : State Job) := by
  simp [SubmitSafe, State.initial]

namespace SubmitInvariant

variable {s : State Job}

/-- Steps that touch neither the calls nor the placed jobs. -/
theorem frame (h : SubmitInvariant s) {t : State Job}
    (hsubmits : t.submits = s.submits) (hplaced : t.placed = s.placed)
    (hdone : s.done = true → t.done = true) : SubmitInvariant t where
  late := by
    rw [hsubmits]
    exact fun call hcall hlate => hdone (h.late call hcall hlate)
  placed := by
    rw [hsubmits, hplaced]
    exact h.placed

/-- A call that changes without placing anything. -/
theorem set (h : SubmitInvariant s) {c : Nat} {call new : SubmitCall Job}
    (hc : s.submits[c]? = some call)
    (hafter : new.afterDone = call.afterDone)
    (haccepted : new.accepted = call.accepted) :
    SubmitInvariant { s with submits := s.submits.set c new } where
  late := by
    apply forall_mem_set h.late
    rw [hafter]
    exact h.late call (List.mem_of_getElem? hc)
  placed := h.placed.set hc new haccepted

theorem submit (h : SubmitInvariant s) (job : Job) :
    SubmitInvariant (s.beginSubmit job) where
  late := forall_mem_concat h.late fun hlate => hlate
  placed := h.placed.concat rfl

theorem place (h : SubmitInvariant s) {c : Nat} {call : SubmitCall Job}
    (hc : s.submits[c]? = some call) (hpc : call.pc = .atSelect) :
    SubmitInvariant (s.place c call) where
  late := forall_mem_set h.late (h.late call (List.mem_of_getElem? hc))
  placed := h.placed.set_concat hc (by simp [SubmitCall.accepted, hpc])
    (by simp [SubmitCall.accepted])

/-- **Every step preserves the invariant.** -/
theorem step (h : SubmitInvariant s) {a : Action Job} {t : State Job}
    (hstep : Step s a t) : SubmitInvariant t := by
  cases hstep.2 with
  | submit job => exact h.submit job
  | ctxDone c call hc => exact h.set hc rfl rfl
  | submitCtx c call hc hpc _ =>
      exact h.set hc rfl (by simp [SubmitCall.accepted, hpc])
  | submitStopped c call hc hpc _ =>
      exact h.set hc rfl (by simp [SubmitCall.accepted, hpc])
  | submitSend c call hc hpc _ _ => exact h.place hc hpc
  | submitSendClosed c call hc hpc _ =>
      exact h.set hc rfl (by simp [SubmitCall.accepted, hpc])
  | closeDone _ => exact h.frame rfl rfl fun _ => rfl
  | _ => exact h.frame rfl rfl id

end SubmitInvariant

namespace SubmitSafe

variable {s : State Job}

/-- Steps that touch neither the calls nor the placed jobs. -/
theorem frame (h : SubmitSafe s) {t : State Job}
    (hsubmits : t.submits = s.submits) (hplaced : t.placed = s.placed)
    (hdone : s.done = true → t.done = true) : SubmitSafe t := by
  intro c call hc
  rw [hsubmits] at hc
  obtain ⟨hpanic, hlate⟩ := h c call hc
  refine ⟨hpanic, fun hafter => ?_⟩
  obtain ⟨hrefused, hnot⟩ := hlate hafter
  rw [hplaced]
  refine ⟨?_, hnot⟩
  rcases hrefused with hpc | hpc | ⟨hpc, hd⟩
  · exact .inl hpc
  · exact .inr (.inl hpc)
  · exact .inr (.inr ⟨hpc, hdone hd⟩)

/-- A call that stays out of the channel. -/
theorem set (h : SubmitSafe s) {c : Nat} {call new : SubmitCall Job}
    (hc : s.submits[c]? = some call)
    (hafter : new.afterDone = call.afterDone)
    (hpanic : new.pc ≠ .panicked)
    (hrefused : call.Refused s → new.Refused s) :
    SubmitSafe { s with submits := s.submits.set c new } := by
  intro d other hd
  rw [getElem?_set_eq hc] at hd
  split at hd
  · next hcd =>
      subst hcd
      obtain rfl := Option.some.inj hd
      refine ⟨hpanic, fun hlate => ?_⟩
      obtain ⟨hold, hnot⟩ := (h c call hc).2 (hafter ▸ hlate)
      exact ⟨hrefused hold, hnot⟩
  · exact h d other hd

/-- A new call has placed nothing, and finds `done` closed if it is late. -/
theorem submit (h : SubmitSafe s) (hinv : SubmitInvariant s) (job : Job) :
    SubmitSafe (s.beginSubmit job) := by
  intro c call hc
  by_cases hlt : c < s.submits.length
  · exact h c call (by rwa [State.beginSubmit,
      List.getElem?_append_left hlt] at hc)
  · have hnew : call = ⟨job, s.done, false, .atSelect⟩ := by
      rw [State.beginSubmit,
        List.getElem?_append_right (Nat.not_lt.mp hlt)] at hc
      exact List.mem_singleton.mp (List.mem_of_getElem? hc)
    subst hnew
    refine ⟨by simp, fun hlate => ⟨.inr (.inr ⟨rfl, hlate⟩), ?_⟩⟩
    exact fun job hmem => hlt (hinv.placed.lt_length hmem)

/-- **Placing a job is safe exactly when the call is not late.** -/
theorem place_iff (h : SubmitSafe s) {c : Nat} {call : SubmitCall Job}
    (hc : s.submits[c]? = some call) :
    SubmitSafe (s.place c call) ↔ call.afterDone = false := by
  have hself : (s.place c call).submits[c]? =
      some { call with pc := .accepted } :=
    List.getElem?_set_self (lt_length_of_getElem? hc)
  constructor
  · intro hsafe
    by_contra hlate
    have hmem : (c, call.job) ∈ (s.place c call).placed := by
      simp [State.place]
    exact ((hsafe c _ hself).2 (by simpa using hlate)).2 _ hmem
  · intro hearly d other hd
    by_cases hcd : c = d
    · subst hcd
      obtain rfl := Option.some.inj (hself.symm.trans hd)
      refine ⟨by simp, fun hlate => ?_⟩
      simp only at hlate
      simp [hearly] at hlate
    · have hold : s.submits[d]? = some other := by
        rwa [State.place, State.submitGoto, List.getElem?_set_ne hcd] at hd
      obtain ⟨hpanic, hother⟩ := h d other hold
      refine ⟨hpanic, fun hlate => ⟨(hother hlate).1, fun job hmem => ?_⟩⟩
      rcases List.mem_append.mp hmem with hmem | hmem
      · exact (hother hlate).2 job hmem
      · have hdc : d = c := congrArg Prod.fst (List.mem_singleton.mp hmem)
        exact hcd hdc.symm

/-- A send on the closed channel is never safe. -/
theorem not_sendClosed {c : Nat} {call : SubmitCall Job}
    (hc : s.submits[c]? = some call) :
    ¬ SubmitSafe (s.submitGoto c call .panicked) := by
  intro hsafe
  exact (hsafe c _ (List.getElem?_set_self (lt_length_of_getElem? hc))).1 rfl

/-- **A step from a safe state is safe exactly when it sends in time.** -/
theorem step_iff (h : SubmitSafe s) (hinv : SubmitInvariant s)
    {a : Action Job} {t : State Job} (hstep : Step s a t) :
    SubmitSafe t ↔ SendsInTime s a := by
  cases hstep.2 with
  | submit job => exact iff_of_true (h.submit hinv job) trivial
  | ctxDone c call hc =>
      refine iff_of_true (h.set hc rfl ?_ fun hold => hold) trivial
      exact (h c call hc).1
  | submitCtx c call hc hpc _ =>
      exact iff_of_true (h.set hc rfl (by simp) fun _ => .inl rfl) trivial
  | submitStopped c call hc hpc _ =>
      exact iff_of_true (h.set hc rfl (by simp) fun _ => .inr (.inl rfl))
        trivial
  | submitSend c call hc hpc hopen _ =>
      rw [h.place_iff hc, SendsInTime, hc]
      simp [hopen]
  | submitSendClosed c call hc hpc hclosed =>
      apply iff_of_false (not_sendClosed hc)
      intro hsend
      rw [SendsInTime, hclosed] at hsend
      exact Bool.noConfusion hsend.1
  | closeDone _ => exact iff_of_true (h.frame rfl rfl fun _ => rfl) trivial
  | _ => exact iff_of_true (h.frame rfl rfl id) trivial

end SubmitSafe

/-! ## When `Stop` comes between the calls -/

/-- No `Submit` begins once `done` is closed, and none stands at its `select`
when `Stop` closes `jobs`. -/
def StopsBetweenSubmits (s : State Job) : Action Job → Prop
  | .submit _ => s.done = false
  | .stop => s.stop = .closingJobs →
      ∀ call ∈ s.submits, call.pc ≠ .atSelect
  | _ => True

/-- All calls began in time, and when `jobs` is closed they have ended. -/
structure InTime (s : State Job) : Prop where
  stop : StopInvariant s
  early : ∀ call ∈ s.submits, call.afterDone = false
  ended : s.jobsClosed = true → ∀ call ∈ s.submits, call.pc ≠ .atSelect

theorem inTime_initial (workerCount : Nat) :
    InTime (State.initial workerCount : State Job) where
  stop := stopInvariant_initial workerCount
  early := by simp [State.initial]
  ended := by simp [State.initial]

namespace InTime

variable {s t : State Job} {a : Action Job}

/-- A call that leaves its `select`, or stays where it is. -/
theorem set (h : InTime s) (ht : StopInvariant t) {c : Nat}
    {call new : SubmitCall Job} (hc : s.submits[c]? = some call)
    (hsubmits : t.submits = s.submits.set c new)
    (hclosed : t.jobsClosed = s.jobsClosed)
    (hafter : new.afterDone = call.afterDone)
    (hpc : new.pc = .atSelect → call.pc = .atSelect) : InTime t where
  stop := ht
  early := by
    rw [hsubmits]
    exact forall_mem_set h.early
      (hafter.trans (h.early call (List.mem_of_getElem? hc)))
  ended := by
    rw [hsubmits, hclosed]
    intro hjobs
    exact forall_mem_set (h.ended hjobs) fun hat =>
      h.ended hjobs call (List.mem_of_getElem? hc) (hpc hat)

/-- Steps that touch neither the calls nor the flag of `jobs`. -/
theorem frame (h : InTime s) (ht : StopInvariant t)
    (hsubmits : t.submits = s.submits)
    (hclosed : t.jobsClosed = s.jobsClosed) : InTime t where
  stop := ht
  early := hsubmits ▸ h.early
  ended := by
    rw [hsubmits, hclosed]
    exact h.ended

/-- **A step that comes between the calls keeps them in time.** -/
theorem step (h : InTime s) (hC : StopsBetweenSubmits s a)
    (hstep : Step s a t) : InTime t := by
  have ht := h.stop.step hstep
  cases hstep.2 with
  | submit job =>
      have hdone : s.done = false := hC
      refine ⟨ht, forall_mem_concat h.early hdone, fun hclosed => ?_⟩
      rw [h.stop.done_of_jobsClosed hclosed] at hdone
      cases hdone
  | ctxDone c call hc => exact h.set ht hc rfl rfl rfl id
  | submitCtx c call hc | submitStopped c call hc
  | submitSendClosed c call hc =>
      exact h.set ht hc rfl rfl rfl fun hat => by cases hat
  | submitSend c call hc =>
      exact h.set ht hc rfl rfl rfl fun hat => by cases hat
  | closeJobs hstop => exact ⟨ht, h.early, fun _ => hC hstop⟩
  | _ => exact h.frame ht rfl rfl

/-- Calls in time send in time. -/
theorem sendsInTime (h : InTime s) (hstep : Step s a t) :
    SendsInTime s a := by
  cases hstep.2 with
  | submitSend c call hc hpc hopen _ =>
      exact ⟨hopen, fun other hother =>
        h.early other (List.mem_of_getElem? hother)⟩
  | submitSendClosed c call hc hpc hclosed =>
      exact absurd hpc (h.ended hclosed call (List.mem_of_getElem? hc))
  | _ => trivial

end InTime

/-- A call at its `select` can panic once `jobs` is closed. -/
theorem exists_panics {s : State Job} (hcrashed : s.crashed = false)
    (hclosed : s.jobsClosed = true) {c : Nat} {call : SubmitCall Job}
    (hc : s.submits[c]? = some call) (hpc : call.pc = .atSelect) :
    ∃ u, Reaches Step s u ∧ ¬ SubmitSafe u :=
  ⟨_, .single ⟨hcrashed, .submitSendClosed s c call hc hpc hclosed⟩,
    SubmitSafe.not_sendClosed hc⟩

/-- **From a step that does not come between the calls one can go wrong.** -/
theorem exists_not_submitSafe {s t : State Job} {a : Action Job}
    (h : StopInvariant s) (hstep : Step s a t)
    (hC : ¬ StopsBetweenSubmits s a) :
    ∃ u, Reaches Step t u ∧ ¬ SubmitSafe u := by
  obtain ⟨hcrashed, hmove⟩ := hstep
  cases hmove with
  | submit job =>
      have hdone : s.done = true := by
        cases hcase : s.done with
        | true => rfl
        | false => exact absurd hcase hC
      have hc : (s.beginSubmit job).submits[s.submits.length]? =
          some ⟨job, s.done, false, .atSelect⟩ := List.getElem?_concat_length
      cases hclosed : s.jobsClosed with
      | true => exact exists_panics hcrashed hclosed hc rfl
      | false =>
          -- `Stop` has only to go on
          have hcloses : Step (s.beginSubmit job) .stop _ :=
            ⟨hcrashed, .closeJobs _ (h.closingJobs hdone hclosed)⟩
          obtain ⟨u, hu, hunsafe⟩ := exists_panics
            (s := { s.beginSubmit job with
              jobsClosed := true, stop := .waiting }) hcrashed rfl hc rfl
          exact ⟨u, hu.head hcloses, hunsafe⟩
  | closeJobs hstop =>
      have hat : ∃ call ∈ s.submits, call.pc = .atSelect := by
        by_contra hnone
        exact hC fun _ call hcall hpc => hnone ⟨call, hcall, hpc⟩
      obtain ⟨call, hcall, hpc⟩ := hat
      obtain ⟨c, hc⟩ := List.mem_iff_getElem?.mp hcall
      exact exists_panics (s := { s with jobsClosed := true, stop := .waiting })
        hcrashed rfl hc hpc
  | stopBegins hstop | closeDone hstop | wgWait hstop _ | tickerStop hstop
  | closeOutput hstop =>
      refine absurd (fun hclosing => ?_) hC
      rw [hstop] at hclosing
      cases hclosing
  | _ => exact absurd trivial hC

/-- **When `Submit` is safe against `Stop`.**  Along every run of every
dispatcher in which no `Submit` begins after `Stop` has closed `done` and none
stands at its `select` when `Stop` closes `jobs`, no `Submit` panics and none
that began after `done` was closed places its job or returns anything but an
error.  And after every step that violates this a run can go on so that one
does. -/
theorem submitSafe_of_stopsBetweenSubmits {workerCount rateLimitPerSec : Int}
    {s₀ : State Job}
    (hnew : newDispatcher workerCount rateLimitPerSec = .ok s₀) :
    (∀ run, IsRun Step s₀ run → StepsAll StopsBetweenSubmits s₀ run →
      StatesAll SubmitSafe run) ∧
    ∀ s a t, Reaches Step s₀ s → Step s a t → ¬ StopsBetweenSubmits s a →
      ∃ u, Reaches Step t u ∧ ¬ SubmitSafe u := by
  obtain rfl := eq_initial_of_newDispatcher hnew
  constructor
  · intro run hrun hC entry hentry
    exact (statesAll_of_stepsAll
      (I := fun s => InTime s ∧ SubmitInvariant s ∧ SubmitSafe s)
      (fun _ _ _ h hC hstep => ⟨h.1.step hC hstep, h.2.1.step hstep,
        (h.2.2.step_iff h.2.1 hstep).mpr (h.1.sendsInTime hstep)⟩)
      hrun ⟨inTime_initial _, submitInvariant_initial _,
        submitSafe_initial _⟩ hC entry hentry).2.2
  · intro s a t hs hstep hC
    exact exists_not_submitSafe (hs.invariant
      (fun _ _ _ h hstep => h.step hstep) (stopInvariant_initial _)) hstep hC

/-- A job is placed, and then `Stop` closes both channels. -/
theorem submitSafe_of_stopsBetweenSubmits_early :
    ∃ run : List (Action Unit × State Unit),
      IsRun Step (State.initial 1) run ∧
      run.map Prod.fst = [.submit (), .submitSend 0, .stop, .stop, .stop] ∧
      StatesAll SubmitSafe run := by
  have hrun : IsRun (α := Action Unit) Step (State.initial 1)
      [(_, _), (_, _), (_, _), (_, _), (_, _)] :=
    ⟨⟨rfl, .submit _ ()⟩, ⟨rfl, .submitSend _ 0 _ rfl rfl rfl (by decide)⟩,
      ⟨rfl, .stopBegins _ rfl⟩, ⟨rfl, .closeDone _ rfl⟩,
      ⟨rfl, .closeJobs _ rfl⟩, trivial⟩
  have hnew : newDispatcher 1 1 = .ok (State.initial 1 : State Unit) := rfl
  refine ⟨_, hrun, rfl,
    (submitSafe_of_stopsBetweenSubmits hnew).1 _ hrun ?_⟩
  refine ⟨rfl, trivial, fun hstop => ?_, fun hstop => ?_,
    fun _ call hcall => ?_, trivial⟩
  · cases hstop
  · cases hstop
  · obtain rfl := List.mem_singleton.mp hcall
    exact nofun

/-- **A `Submit` begun after `done` was closed may panic, and may place its
job.**  Both runs have one worker; only in the first has `Stop` closed `jobs`
as well. -/
theorem submit_panics_or_places_after_done :
    ∃ s : State Unit, newDispatcher 1 1 = .ok s ∧
      (∃ t, Reaches Step s t ∧ ¬ SubmitSafe t ∧
        t.submits = [⟨(), true, false, .panicked⟩]) ∧
      (∃ t, Reaches Step s t ∧ ¬ SubmitSafe t ∧
        t.submits = [⟨(), true, false, .accepted⟩] ∧
        t.placed = [(0, ())]) := by
  refine ⟨State.initial 1, rfl, ?_⟩
  have hbegun : Step (State.initial 1 : State Unit) .stop _ :=
    ⟨rfl, .stopBegins _ rfl⟩
  have hdone := (Reaches.single hbegun).tail ⟨rfl, .closeDone _ rfl⟩
  constructor
  · have hlate := (hdone.tail ⟨rfl, .closeJobs _ rfl⟩).tail
      ⟨rfl, .submit _ ()⟩
    exact ⟨_, hlate.tail ⟨rfl, .submitSendClosed _ 0 _ rfl rfl rfl⟩,
      fun hsafe => (hsafe 0 _ rfl).1 rfl, rfl⟩
  · have hlate := hdone.tail ⟨rfl, .submit _ ()⟩
    exact ⟨_, hlate.tail ⟨rfl, .submitSend _ 0 _ rfl rfl rfl (by decide)⟩,
      fun hsafe => ((hsafe 0 _ rfl).2 rfl).2 () (by decide), rfl, rfl⟩

end GoPrep.Ports.Dispatcher
