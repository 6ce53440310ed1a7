import GoPrep.Ports.DispatcherStop

/-!
# The results that nobody receives

Once nobody receives from `Results()` a send waits for good when the buffer of
`output` is full.  Whether this can happen to a worker is decided when `Stop`
closes `jobs`: by then the results that can still be sent are those of the
jobs in a worker or in the channel.

## Main results

* `Fits.step` — results that fit into `output` go on to fit.
* `canReturn_of_fits` — while they fit, all workers and `Stop` can return.
* `exists_allAtSend` — if they do not, the workers can all come to wait at
  their sends.
* `stopProceeds_iff_fits` — along every run `Stop` is never stranded if,
  whenever it closes `jobs`, the pending results fit or all workers are gone;
  otherwise it can be.
* `stop_stranded` — a run in which it is.
-/

namespace GoPrep.Ports.Dispatcher

open GoPrep.Verified.ThreadTable
open GoPrep.Verified.Transition

variable {Job : Type}

/-! ## Results that fit -/

/-- The results that are buffered, and those that the jobs in a worker or in
the channel may still become. -/
def State.pending (s : State Job) : Nat :=
  s.output.length + s.jobs.length + s.workers.countP WorkerPc.midJob

/-- All pending results have room in `output`, or nobody is left to send
one. -/
def Fits (s : State Job) : Prop :=
  (∀ pc ∈ s.workers, pc.remains = false) ∨ s.pending ≤ s.workerCount

/-- A worker's move changes the pending results by what it sends, takes and
becomes. -/
theorem pending_le_iff {s t : State Job} {w : Nat} {old new : WorkerPc Job}
    (hw : s.workers[w]? = some old) (ht : t.workers = s.workers.set w new) :
    t.pending ≤ s.pending ↔
      t.output.length + t.jobs.length + (if new.midJob then 1 else 0) ≤
        s.output.length + s.jobs.length + (if old.midJob then 1 else 0) := by
  have hcount := countP_set WorkerPc.midJob hw new
  rw [← ht] at hcount
  rw [State.pending, State.pending]
  omega

theorem le_pending_iff {s t : State Job} {w : Nat} {old new : WorkerPc Job}
    (hw : s.workers[w]? = some old) (ht : t.workers = s.workers.set w new) :
    s.pending ≤ t.pending ↔
      s.output.length + s.jobs.length + (if old.midJob then 1 else 0) ≤
        t.output.length + t.jobs.length + (if new.midJob then 1 else 0) := by
  have hcount := countP_set WorkerPc.midJob hw new
  rw [← ht] at hcount
  rw [State.pending, State.pending]
  omega

/-- **With `jobs` closed nothing new becomes pending.** -/
theorem pending_step {s t : State Job} {a : Action Job} (h : Step s a t)
    (hclosed : s.jobsClosed = true) : t.pending ≤ s.pending := by
  cases h.2 with
  | submitSend c call _ _ hopen _ =>
      rw [hclosed] at hopen
      cases hopen
  | workerQuit w pc hw hpc _ =>
      rw [pending_le_iff hw rfl]
      rcases hpc with rfl | rfl <;> exact Nat.le_refl _
  | workerToken w hw _ =>
      rw [pending_le_iff hw rfl]
      exact Nat.le_refl _
  | workerReceive w currJob rest hw hjobs =>
      rw [pending_le_iff hw rfl, hjobs]
      exact Nat.le_refl _
  | workerReceiveClosed w hw _ _ =>
      rw [pending_le_iff hw rfl]
      exact Nat.le_refl _
  | jobReturns w currJob result hw =>
      rw [pending_le_iff hw rfl]
      exact Nat.le_refl _
  | jobPanics w currJob hw =>
      rw [pending_le_iff hw rfl]
      exact Nat.le_succ _
  | workerSend w result hw _ _ =>
      rw [pending_le_iff hw rfl]
      show (s.output ++ [result]).length + s.jobs.length + 0 ≤
        s.output.length + s.jobs.length + 1
      rw [List.length_append, List.length_singleton]
      omega
  | workerSendClosed w result hw _ =>
      rw [pending_le_iff hw rfl]
      exact Nat.le_succ _
  | consume result rest houtput =>
      simp only [State.pending, houtput, List.length_cons]
      omega
  | _ => exact Nat.le_refl _

/-- **Results that fit go on to fit.** -/
theorem Fits.step {s t : State Job} {a : Action Job} (h : Fits s)
    (hclosed : s.jobsClosed = true) (hstep : Step s a t) : Fits t := by
  rcases h with hall | hroom
  · exact .inl (exited_step hstep hall)
  · refine .inr ?_
    rw [hstep.workerCount_eq]
    exact Nat.le_trans (pending_step hstep hclosed) hroom

/-- Results that fit strand nobody. -/
theorem Fits.not_allAtSend {s : State Job} (h : Fits s) : ¬ AllAtSend s := by
  intro hall
  obtain ⟨pc, hpc, hremains⟩ := hall.remains
  rcases h with hexited | hroom
  · rw [hexited pc hpc] at hremains
    cases hremains
  · have hsends := hall.sending pc hpc hremains
    have hmid : 0 < s.workers.countP WorkerPc.midJob := by
      refine List.countP_pos_iff.mpr ⟨pc, hpc, ?_⟩
      cases pc <;> first | rfl | cases hsends
    have hfull := hall.full
    rw [State.pending] at hroom
    omega

/-! ## Progress of the workers -/

/-- How far a worker is from being done for good. -/
def WorkerPc.weight : WorkerPc Job → Nat
  | .running _ => 6
  | .sending _ => 5
  | .outer => 4
  | .inner => 2
  | .exited => 0
  | .panicked => 0

/-- The steps left to the workers while nothing is placed. -/
def State.weight (s : State Job) : Nat :=
  5 * s.jobs.length + (s.workers.map WorkerPc.weight).sum +
    (if s.token then 0 else 1)

theorem weight_lt_iff {s t : State Job} {w : Nat} {old new : WorkerPc Job}
    (hw : s.workers[w]? = some old) (ht : t.workers = s.workers.set w new) :
    t.weight < s.weight ↔
      5 * t.jobs.length + (if t.token then 0 else 1) + new.weight <
        5 * s.jobs.length + (if s.token then 0 else 1) + old.weight := by
  have hsum := sum_map_set WorkerPc.weight hw new
  rw [← ht] at hsum
  rw [State.weight, State.weight]
  omega

theorem workerQuit_weight {s : State Job} {w : Nat} {pc : WorkerPc Job}
    (hw : s.workers[w]? = some pc) (hpc : pc = .outer ∨ pc = .inner) :
    State.weight { s.workerGoto w .exited with wg := s.wg - 1 } <
      s.weight := by
  rw [weight_lt_iff hw rfl]
  rcases hpc with rfl | rfl
  · show 5 * s.jobs.length + (if s.token then 0 else 1) + 0 <
      5 * s.jobs.length + (if s.token then 0 else 1) + 4
    omega
  · show 5 * s.jobs.length + (if s.token then 0 else 1) + 0 <
      5 * s.jobs.length + (if s.token then 0 else 1) + 2
    omega

/-! ## `Stop` returns when the results fit -/

/-- A step of a worker or of `Stop`. -/
def PoolStep (s : State Job) (a : Action Job) (t : State Job) : Prop :=
  a.byWorkerOrStop = true ∧ Step s a t

/-- The workers can all return, and then `Stop`, without a receive from
`Results()`. -/
def CanReturn (s : State Job) : Prop :=
  ∃ t, Reaches PoolStep s t ∧ t.stop = .returned ∧
    ∀ pc ∈ t.workers, pc.remains = false

/-- With all workers gone `Stop` runs to its end. -/
theorem canReturn_of_exited {s : State Job} (h : Waits s)
    (hall : ∀ pc ∈ s.workers, pc.remains = false) : CanReturn s := by
  have hzero : s.wg = 0 := by
    rw [h.invariant.wg_eq, List.countP_eq_zero]
    intro pc hpc
    rw [hall pc hpc]
    simp
  have hwaits : PoolStep s .stop { s with stop := .stoppingTicker } :=
    ⟨rfl, h.crashed, .wgWait s h.stop hzero⟩
  exact ⟨_, ((Reaches.single hwaits).tail
    ⟨rfl, h.crashed, .tickerStop _ rfl⟩).tail
    ⟨rfl, h.crashed, .closeOutput _ rfl⟩, rfl, hall⟩

/-- **While the pending results fit, the workers can return, and `Stop`.** -/
theorem canReturn_of_fits {s : State Job} (h : Waits s) (hfits : Fits s) :
    CanReturn s := by
  induction hweight : s.weight using Nat.strongRecOn generalizing s with
  | ind n ih =>
  have hnext : ∀ {a : Action Job} {t : State Job}, a.byWorkerOrStop = true →
      Step s a t → t.stop = .waiting → t.crashed = false →
      t.weight < s.weight → CanReturn s := by
    intro a t ha hstep hstop hcrashed hlt
    obtain ⟨u, hu, hreturned⟩ := ih t.weight (hweight ▸ hlt)
      ⟨h.invariant.step hstep, hstop, hcrashed⟩
      (hfits.step h.jobsClosed hstep) rfl
    exact ⟨u, hu.head ⟨ha, hstep⟩, hreturned⟩
  by_cases hremains : ∃ pc ∈ s.workers, pc.remains = true
  · obtain ⟨pc, hpc, hremains⟩ := hremains
    obtain ⟨w, hw⟩ := List.mem_iff_getElem?.mp hpc
    rcases h.pc_cases hpc with ⟨currJob, rfl⟩ | ⟨result, rfl⟩ | hidle | rfl
    · exact hnext rfl ⟨h.crashed, .jobReturns s w currJob "" hw⟩ h.stop
        h.crashed ((weight_lt_iff hw rfl).mpr (Nat.lt_succ_self _))
    · have hroom : s.output.length < s.workerCount := by
        rcases hfits with hall | hroom
        · exact absurd hremains (by simp [hall _ hpc])
        · have hmid : 0 < s.workers.countP WorkerPc.midJob :=
            List.countP_pos_iff.mpr ⟨_, hpc, rfl⟩
          rw [State.pending] at hroom
          omega
      exact hnext rfl
        ⟨h.crashed, .workerSend s w result hw h.outputClosed hroom⟩ h.stop
        h.crashed ((weight_lt_iff hw rfl).mpr (Nat.lt_succ_self _))
    · exact hnext rfl ⟨h.crashed, .workerQuit s w pc hw hidle h.done⟩ h.stop
        h.crashed (workerQuit_weight hw hidle)
    · cases hremains
  · refine canReturn_of_exited h fun pc hpc => ?_
    cases hpc' : pc.remains with
    | false => rfl
    | true => exact absurd ⟨pc, hpc, hpc'⟩ hremains

/-! ## Results that do not fit -/

/-- With `output` full and a worker at its send, the others can quit. -/
theorem allAtSend_or_idle {s : State Job} (h : Waits s)
    (hfull : s.output.length = s.workerCount) {pc : WorkerPc Job}
    (hpc : pc ∈ s.workers) (hsends : pc.atSend = true)
    (hrunning : ∀ currJob, WorkerPc.running currJob ∉ s.workers) :
    AllAtSend s ∨
      ∃ (w : Nat) (pc : WorkerPc Job), s.workers[w]? = some pc ∧
        (pc = .outer ∨ pc = .inner) := by
  by_cases hidle : ∃ pc ∈ s.workers, pc = .outer ∨ pc = .inner
  · obtain ⟨pc, hpc, hidle⟩ := hidle
    obtain ⟨w, hw⟩ := List.mem_iff_getElem?.mp hpc
    exact .inr ⟨w, pc, hw, hidle⟩
  · refine .inl ⟨h.stop, h.crashed, hfull, ⟨pc, hpc, ?_⟩, ?_⟩
    · cases pc <;> first | rfl | cases hsends
    · intro pc hpc hremains
      rcases h.pc_cases hpc with ⟨currJob, rfl⟩ | ⟨result, rfl⟩ | hpc' | rfl
      · exact absurd hpc (hrunning currJob)
      · rfl
      · exact absurd ⟨pc, hpc, hpc'⟩ hidle
      · cases hremains

/-- A step towards the end that loses no pending result. -/
structure Advances (s t : State Job) : Prop where
  step : ∃ a, Step s a t
  waits : Waits t
  weight : t.weight < s.weight
  pending : s.pending ≤ t.pending
  remains : ∃ pc ∈ t.workers, pc.remains = true

namespace Waits

variable {s : State Job} {w : Nat}

/-- What is left to check of a step of worker `w` that remains. -/
theorem advances (h : Waits s) {a : Action Job} {t : State Job}
    {old new : WorkerPc Job} (hstep : Step s a t)
    (hw : s.workers[w]? = some old) (ht : t.workers = s.workers.set w new)
    (hnew : new.remains = true) (hstop : t.stop = s.stop)
    (hcrashed : t.crashed = s.crashed)
    (hweight : 5 * t.jobs.length + (if t.token then 0 else 1) + new.weight <
      5 * s.jobs.length + (if s.token then 0 else 1) + old.weight)
    (hpending : s.output.length + s.jobs.length +
        (if old.midJob then 1 else 0) ≤
      t.output.length + t.jobs.length + (if new.midJob then 1 else 0)) :
    Advances s t where
  step := ⟨a, hstep⟩
  waits := ⟨h.invariant.step hstep, hstop.trans h.stop,
    hcrashed.trans h.crashed⟩
  weight := (weight_lt_iff hw ht).mpr hweight
  pending := (le_pending_iff hw ht).mpr hpending
  remains := by
    rw [ht]
    exact ⟨new, List.mem_set (lt_length_of_getElem? hw) new, hnew⟩

/-- A worker that is mid-job gets on with it, until `output` is full. -/
theorem advances_midJob (h : Waits s) {pc : WorkerPc Job}
    (hw : s.workers[w]? = some pc) (hmid : pc.midJob = true)
    (hroom : pc.atSend = true → s.output.length < s.workerCount) :
    ∃ t, Advances s t := by
  cases pc with
  | running currJob =>
      refine ⟨_, h.advances ⟨h.crashed, .jobReturns s w currJob "" hw⟩ hw rfl
        rfl rfl rfl ?_ (Nat.le_refl _)⟩
      exact Nat.lt_succ_self _
  | sending result =>
      refine ⟨_, h.advances ⟨h.crashed, .workerSend s w result hw
        h.outputClosed (hroom rfl)⟩ hw rfl rfl rfl rfl ?_ ?_⟩
      · exact Nat.lt_succ_self _
      · show s.output.length + s.jobs.length + 1 ≤
          (s.output ++ [result]).length + s.jobs.length + 0
        rw [List.length_append, List.length_singleton]
        omega
  | _ => cases hmid

/-- A worker without a job sees `done`, while another one remains. -/
theorem advances_workerQuit (h : Waits s) {pc other : WorkerPc Job}
    (hw : s.workers[w]? = some pc) (hidle : pc = .outer ∨ pc = .inner)
    (hother : other ∈ s.workers) (hne : pc ≠ other)
    (hremains : other.remains = true) : ∃ t, Advances s t := by
  refine ⟨_, ⟨_, h.crashed, .workerQuit s w pc hw hidle h.done⟩,
    ⟨h.invariant.workerQuit hw ?_, h.stop, h.crashed⟩,
    workerQuit_weight hw hidle, ?_, ?_⟩
  · rcases hidle with rfl | rfl <;> rfl
  · rw [le_pending_iff hw rfl]
    rcases hidle with rfl | rfl <;> exact Nat.le_refl _
  · obtain ⟨i, hi⟩ := List.mem_iff_getElem?.mp hother
    exact ⟨other, List.mem_of_getElem? (getElem?_set_of_ne hw hi hne .exited),
      hremains⟩

/-- A worker without a token can come to hold one, the ticker being stopped
only after the wait. -/
theorem advances_outer (h : Waits s) (hw : s.workers[w]? = some .outer) :
    ∃ t, Advances s t := by
  cases htoken : s.token with
  | true =>
      refine ⟨_, h.advances ⟨h.crashed, .workerToken s w hw htoken⟩ hw rfl
        rfl rfl rfl ?_ (Nat.le_refl _)⟩
      rw [htoken]
      show 5 * s.jobs.length + 1 + 2 < 5 * s.jobs.length + 0 + 4
      omega
  | false =>
      have htick : Step s .tick _ := ⟨h.crashed, .tick s h.tickerStopped⟩
      refine ⟨_, ⟨_, htick⟩,
        ⟨h.invariant.step htick, h.stop, h.crashed⟩, ?_, Nat.le_refl _,
        _, List.mem_of_getElem? hw, rfl⟩
      rw [State.weight, State.weight, htoken]
      exact Nat.lt_succ_self _

/-- A worker with a token can take the job in front. -/
theorem advances_inner (h : Waits s) (hw : s.workers[w]? = some .inner)
    (hjobs : s.jobs ≠ []) : ∃ t, Advances s t := by
  obtain ⟨currJob, rest, hjobs⟩ := List.exists_cons_of_ne_nil hjobs
  refine ⟨_, h.advances ⟨h.crashed, .workerReceive s w currJob rest hw
    hjobs⟩ hw rfl rfl rfl rfl ?_ ?_⟩
  · rw [hjobs, List.length_cons]
    show 5 * rest.length + (if s.token then 0 else 1) + 6 <
      5 * (rest.length + 1) + (if s.token then 0 else 1) + 2
    omega
  · rw [hjobs]
    exact Nat.le_refl _

/-- **While too many results are pending the workers can go on, until all of
them wait at their sends.** -/
theorem allAtSend_or_advances (h : Waits s)
    (hremains : ∃ pc ∈ s.workers, pc.remains = true)
    (hover : s.workerCount < s.pending) :
    AllAtSend s ∨ ∃ t, Advances s t := by
  by_cases hbusy : ∃ pc ∈ s.workers, pc.midJob = true ∧
      (pc.atSend = true → s.output.length < s.workerCount)
  · obtain ⟨pc, hpc, hmid, hroom⟩ := hbusy
    obtain ⟨w, hw⟩ := List.mem_iff_getElem?.mp hpc
    exact .inr (h.advances_midJob hw hmid hroom)
  by_cases hmid : ∃ pc ∈ s.workers, pc.midJob = true
  · -- it waits at its send
    obtain ⟨pc, hpc, hmid⟩ := hmid
    have hblocked : pc.atSend = true ∧ ¬ s.output.length < s.workerCount := by
      by_contra hnot
      exact hbusy ⟨pc, hpc, hmid, fun hat => by
        by_contra hfull
        exact hnot ⟨hat, hfull⟩⟩
    have hfull := Nat.le_antisymm h.invariant.output_le
      (Nat.not_lt.mp hblocked.2)
    have hrunning : ∀ currJob, WorkerPc.running currJob ∉ s.workers :=
      fun currJob hrun => hbusy ⟨_, hrun, rfl, fun hat => by cases hat⟩
    rcases allAtSend_or_idle h hfull hpc hblocked.1 hrunning with
      hall | ⟨w, idle, hw, hidle⟩
    · exact .inl hall
    · refine .inr (h.advances_workerQuit hw hidle hpc ?_ ?_)
      · rintro rfl
        rcases hidle with rfl | rfl <;> cases hmid
      · cases pc <;> first | rfl | cases hmid
  · -- nobody is mid-job, so a job in the channel does not fit
    have hnone : ∀ pc ∈ s.workers, pc.midJob = false := fun pc hpc => by
      cases hpc' : pc.midJob with
      | false => rfl
      | true => exact absurd ⟨pc, hpc, hpc'⟩ hmid
    have hjobs : s.jobs ≠ [] := by
      intro hempty
      have hzero : s.workers.countP WorkerPc.midJob = 0 :=
        List.countP_eq_zero.mpr fun pc hpc => by simp [hnone pc hpc]
      have hle := h.invariant.output_le
      rw [State.pending, hempty, hzero, List.length_nil] at hover
      omega
    obtain ⟨pc, hpc, hremains⟩ := hremains
    obtain ⟨w, hw⟩ := List.mem_iff_getElem?.mp hpc
    rcases h.pc_cases hpc with ⟨currJob, rfl⟩ | ⟨result, rfl⟩ | hidle | rfl
    · cases hnone _ hpc
    · cases hnone _ hpc
    · rcases hidle with rfl | rfl
      · exact .inr (h.advances_outer hw)
      · exact .inr (h.advances_inner hw hjobs)
    · cases hremains

end Waits

/-- **Pending results that do not fit can strand `Stop`.** -/
theorem exists_allAtSend {s : State Job} (h : Waits s)
    (hremains : ∃ pc ∈ s.workers, pc.remains = true)
    (hover : s.workerCount < s.pending) :
    ∃ t, Reaches Step s t ∧ Waits t ∧ AllAtSend t := by
  induction hweight : s.weight using Nat.strongRecOn generalizing s with
  | ind n ih =>
  rcases h.allAtSend_or_advances hremains hover with hall | ⟨t, ht⟩
  · exact ⟨s, .refl, h, hall⟩
  · obtain ⟨a, hstep⟩ := ht.step
    have hover' : t.workerCount < t.pending := by
      rw [hstep.workerCount_eq]
      exact Nat.lt_of_lt_of_le hover ht.pending
    obtain ⟨u, hu, hall⟩ :=
      ih t.weight (hweight ▸ ht.weight) ht.waits ht.remains hover' rfl
    exact ⟨u, hu.head hstep, hall⟩

/-! ## When `Stop` begins to wait -/

/-- When `Stop` closes `jobs`, the pending results fit. -/
def ClosesWhenFits (s : State Job) : Action Job → Prop
  | .stop => s.stop = .closingJobs → Fits s
  | _ => True

/-- Once `jobs` is closed the pending results fit. -/
structure FitsInvariant (s : State Job) : Prop where
  invariant : StopInvariant s
  fits : s.jobsClosed = true → Fits s

theorem FitsInvariant.step {s t : State Job} {a : Action Job}
    (h : FitsInvariant s) (hC : ClosesWhenFits s a) (hstep : Step s a t) :
    FitsInvariant t := by
  refine ⟨h.invariant.step hstep, fun hclosed => ?_⟩
  cases hbefore : s.jobsClosed with
  | true => exact (h.fits hbefore).step hbefore hstep
  | false =>
      cases hstep.2 with
      | closeJobs hstop => exact hC hstop
      | _ => exact absurd (hbefore.symm.trans hclosed) (by simp)

/-- After that it is out of `Stop`'s hands. -/
theorem FitsInvariant.step_of_closed {s t : State Job} {a : Action Job}
    (h : FitsInvariant s) (hclosed : s.jobsClosed = true)
    (hstep : Step s a t) : FitsInvariant t ∧ t.jobsClosed = true :=
  ⟨⟨h.invariant.step hstep,
    fun _ => (h.fits hclosed).step hclosed hstep⟩, hstep.jobsClosed hclosed⟩

/-- `Stop` is not stranded, and if it waits it can still return. -/
def StopProceeds (s : State Job) : Prop :=
  ¬ Stranded s ∧ (s.stop = .waiting → s.crashed = false → CanReturn s)

theorem FitsInvariant.stopProceeds {s : State Job} (h : FitsInvariant s) :
    StopProceeds s := by
  have hfits : s.stop = .waiting → Fits s := fun hstop => h.fits (by
    rw [h.invariant.jobsClosed_eq, hstop]
    rfl)
  constructor
  · intro hstranded
    have hall := h.invariant.stranded_iff.mp hstranded
    exact (hfits hall.stop).not_allAtSend hall
  · intro hstop hcrashed
    exact canReturn_of_fits ⟨h.invariant, hstop, hcrashed⟩ (hfits hstop)

/-- From where `Stop` closes `jobs` too early it can be stranded. -/
theorem exists_stranded {s : State Job} (h : StopInvariant s)
    (hstop : s.stop = .closingJobs) (hcrashed : s.crashed = false)
    (hfits : ¬ Fits s) :
    ∃ t u, Step s .stop t ∧ Reaches Step t u ∧ Stranded u := by
  have hcloses : Step s .stop
      { s with jobsClosed := true, stop := .waiting } :=
    ⟨hcrashed, .closeJobs s hstop⟩
  have hwaits : Waits { s with jobsClosed := true, stop := .waiting } :=
    ⟨h.step hcloses, rfl, hcrashed⟩
  have hremains : ∃ pc ∈ s.workers, pc.remains = true := by
    by_contra hnone
    refine hfits (.inl fun pc hpc => ?_)
    cases hpc' : pc.remains with
    | false => rfl
    | true => exact absurd ⟨pc, hpc, hpc'⟩ hnone
  have hover : s.workerCount < s.pending :=
    Nat.not_le.mp fun hle => hfits (.inr hle)
  obtain ⟨u, hu, hwaits', hall⟩ := exists_allAtSend hwaits hremains hover
  exact ⟨_, u, hcloses, hu, hwaits'.invariant.stranded_iff.mpr hall⟩

/-- From where it closes `jobs` in time it goes on to proceed. -/
theorem stopProceeds_of_fits {s t u : State Job} (h : StopInvariant s)
    (hstop : s.stop = .closingJobs) (hfits : Fits s) (ht : Step s .stop t)
    (hu : Reaches Step t u) : StopProceeds u := by
  have hopen : FitsInvariant s := by
    refine ⟨h, fun hclosed => ?_⟩
    rw [h.jobsClosed_eq, hstop] at hclosed
    cases hclosed
  have hclosed : t.jobsClosed = true := by
    rw [(h.step ht).jobsClosed_eq]
    cases ht.2 with
    | closeJobs _ => rfl
    | stopBegins hpc | closeDone hpc | wgWait hpc _ | tickerStop hpc
    | closeOutput hpc => simp [hstop] at hpc
  have hafter := hu.invariant
    (I := fun u => FitsInvariant u ∧ u.jobsClosed = true)
    (fun _ _ _ h hstep => h.1.step_of_closed h.2 hstep)
    ⟨hopen.step (a := .stop) (fun _ => hfits) ht, hclosed⟩
  exact hafter.1.stopProceeds

/-- **When `Stop` can be stranded.**  For every dispatcher and every behaviour
of its consumers: along every run in which, whenever `Stop` closes `jobs`, the
results that are buffered, being sent or computed, or may still come of the
jobs in the channel fit into `output` (or all workers have returned), `Stop`
is never stranded, and while it waits the workers and `Stop` can all return
without another receive from `Results()`.  From a reachable state in which
`Stop` is about to close `jobs` and they do not fit, it can be stranded.

A worker parked in its inner `select` and one that has not yet reached it are
one state here: either may still take a buffered job once `done` is closed. -/
theorem stopProceeds_iff_fits {workerCount rateLimitPerSec : Int}
    {s₀ : State Job}
    (hnew : newDispatcher workerCount rateLimitPerSec = .ok s₀) :
    (∀ run, IsRun Step s₀ run → StepsAll ClosesWhenFits s₀ run →
      StatesAll StopProceeds run) ∧
    ∀ s, Reaches Step s₀ s → s.stop = .closingJobs → s.crashed = false →
      ((∀ t u, Step s .stop t → Reaches Step t u → StopProceeds u) ↔
        Fits s) := by
  obtain rfl := eq_initial_of_newDispatcher hnew
  constructor
  · intro run hrun hC entry hentry
    have hinitial :
        FitsInvariant (State.initial workerCount.toNat : State Job) :=
      ⟨stopInvariant_initial _, fun hclosed => Bool.noConfusion hclosed⟩
    exact (statesAll_of_stepsAll (fun _ _ _ h hC hstep => h.step hC hstep)
      hrun hinitial hC entry hentry).stopProceeds
  · intro s hs hstop hcrashed
    have hinv := hs.invariant (fun _ _ _ h hstep => h.step hstep)
      (stopInvariant_initial workerCount.toNat)
    constructor
    · intro hproceeds
      by_contra hfits
      obtain ⟨t, u, ht, hu, hstranded⟩ :=
        exists_stranded hinv hstop hcrashed hfits
      exact (hproceeds t u ht hu).1 hstranded
    · intro hfits t u ht hu
      exact stopProceeds_of_fits hinv hstop hfits ht hu

/-- `Stop` closes both channels while the only worker runs the only job, and
nobody receives its result. -/
theorem stopProceeds_iff_fits_one :
    ∃ run : List (Action Unit × State Unit),
      IsRun Step (State.initial 1) run ∧
      run.map Prod.fst = [.submit (), .submitSend 0, .tick, .workerToken 0,
        .workerReceive 0, .stop, .stop, .stop, .jobReturns 0 "done"] ∧
      StatesAll StopProceeds run := by
  have hrun : IsRun (α := Action Unit) Step (State.initial 1)
      [(_, _), (_, _), (_, _), (_, _), (_, _), (_, _), (_, _), (_, _),
        (_, _)] :=
    ⟨⟨rfl, .submit _ ()⟩, ⟨rfl, .submitSend _ 0 _ rfl rfl rfl (by decide)⟩,
      ⟨rfl, .tick _ rfl⟩, ⟨rfl, .workerToken _ 0 rfl rfl⟩,
      ⟨rfl, .workerReceive _ 0 (0, ()) [] rfl rfl⟩,
      ⟨rfl, .stopBegins _ rfl⟩, ⟨rfl, .closeDone _ rfl⟩,
      ⟨rfl, .closeJobs _ rfl⟩, ⟨rfl, .jobReturns _ 0 _ "done" rfl⟩, trivial⟩
  have hnew : newDispatcher 1 1 = .ok (State.initial 1 : State Unit) := rfl
  refine ⟨_, hrun, rfl, (stopProceeds_iff_fits hnew).1 _ hrun ?_⟩
  refine ⟨trivial, trivial, trivial, trivial, trivial, fun hpc => ?_,
    fun hpc => ?_, fun _ => .inr (by decide), trivial, trivial⟩
  · cases hpc
  · cases hpc

/-- **`Stop` may be stranded.**  One result is buffered and not received, and
the only worker runs a second job when `Stop` is called. -/
theorem stop_stranded :
    ∃ s t : State Unit, newDispatcher 1 1 = .ok s ∧ Reaches Step s t ∧
      t.workers = [.sending "b"] ∧ t.output = ["a"] ∧ Stranded t := by
  have hsubmit : Step (State.initial 1 : State Unit) (.submit ()) _ :=
    ⟨rfl, .submit _ ()⟩
  have hfirst := (((((Reaches.single hsubmit).tail
    ⟨rfl, .submitSend _ 0 _ rfl rfl rfl (by decide)⟩).tail
    ⟨rfl, .tick _ rfl⟩).tail ⟨rfl, .workerToken _ 0 rfl rfl⟩).tail
    ⟨rfl, .workerReceive _ 0 (0, ()) [] rfl rfl⟩).tail
    ⟨rfl, .jobReturns _ 0 _ "a" rfl⟩
  have hsecond := (((((hfirst.tail
    ⟨rfl, .workerSend _ 0 _ rfl rfl (by decide)⟩).tail
    ⟨rfl, .submit _ ()⟩).tail
    ⟨rfl, .submitSend _ 1 _ rfl rfl rfl (by decide)⟩).tail
    ⟨rfl, .tick _ rfl⟩).tail ⟨rfl, .workerToken _ 0 rfl rfl⟩).tail
    ⟨rfl, .workerReceive _ 0 (1, ()) [] rfl rfl⟩
  have hstopped := (((hsecond.tail ⟨rfl, .stopBegins _ rfl⟩).tail
    ⟨rfl, .closeDone _ rfl⟩).tail ⟨rfl, .closeJobs _ rfl⟩).tail
    ⟨rfl, .jobReturns _ 0 _ "b" rfl⟩
  refine ⟨_, _, rfl, hstopped, rfl, rfl, ?_⟩
  have hinv := hstopped.invariant (fun _ _ _ h hstep => h.step hstep)
    (stopInvariant_initial 1)
  refine hinv.stranded_iff.mpr ⟨rfl, rfl, rfl, ⟨_, List.mem_singleton_self _,
    rfl⟩, fun pc hpc _ => ?_⟩
  rw [List.mem_singleton.mp hpc]
  rfl

end GoPrep.Ports.Dispatcher
