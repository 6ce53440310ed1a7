import GoPrep.Ports.Dispatcher

/-!
# `Stop` and its workers

A worker sends its result outside any `select`, and `Stop` waits for the
worker.  What the counter of the wait group, the closed channels and the
places of the workers say about each other is one invariant; from it follows
where the two can block each other.

## Main results

* `StopInvariant.step` — the invariant of all interleavings.
* `StopInvariant.stranded_iff` — nothing but a receive from `Results()` helps
  exactly when `Stop` waits and every worker that remains is at its send on a
  full `output`.
-/

namespace GoPrep.Ports.Dispatcher

open GoPrep.Verified.ThreadTable
open GoPrep.Verified.Transition

variable {Job : Type}

/-! ## Where `Stop` stands -/

namespace StopPc

def closedDone : StopPc → Bool
  | .notCalled => false
  | .closingDone => false
  | _ => true

def closedJobs : StopPc → Bool
  | .notCalled => false
  | .closingDone => false
  | .closingJobs => false
  | _ => true

end StopPc

/-- The worker has not run its deferred `wg.Done()`. -/
def WorkerPc.remains : WorkerPc Job → Bool
  | .exited => false
  | _ => true

/-- The worker is between its receive of a job and its send. -/
def WorkerPc.midJob : WorkerPc Job → Bool
  | .running _ => true
  | .sending _ => true
  | _ => false

structure StopInvariant (s : State Job) : Prop where
  done_eq : s.done = s.stop.closedDone
  jobsClosed_eq : s.jobsClosed = s.stop.closedJobs
  outputClosed : s.outputClosed = true → s.stop = .returned
  tickerStopped : s.tickerStopped = true →
    s.stop = .closingOutput ∨ s.stop = .returned
  wg_eq : s.wg = s.workers.countP WorkerPc.remains
  panicked : .panicked ∈ s.workers → s.crashed = true
  output_le : s.output.length ≤ s.workerCount

theorem stopInvariant_initial (workerCount : Nat) :
    StopInvariant (State.initial workerCount : State Job) where
  done_eq := rfl
  jobsClosed_eq := rfl
  outputClosed := fun h => Bool.noConfusion h
  tickerStopped := fun h => Bool.noConfusion h
  wg_eq := by simp [State.initial, WorkerPc.remains, List.countP_replicate]
  panicked := by simp [State.initial, List.mem_replicate]
  output_le := Nat.zero_le _

namespace StopInvariant

variable {s : State Job}

/-- A worker moves on, or panics, or runs its deferred `wg.Done()`. -/
theorem workerGoto (h : StopInvariant s) {w : Nat} {old new : WorkerPc Job}
    (hw : s.workers[w]? = some old) {wg : Nat} {crashed : Bool}
    (hwg : wg + (if old.remains then 1 else 0) =
      s.wg + (if new.remains then 1 else 0))
    (hcrashed : s.crashed = true ∨ new = .panicked → crashed = true) :
    StopInvariant
      { s.workerGoto w new with wg := wg, crashed := crashed } where
  done_eq := h.done_eq
  jobsClosed_eq := h.jobsClosed_eq
  outputClosed := h.outputClosed
  tickerStopped := h.tickerStopped
  wg_eq := by
    have hcount := countP_set WorkerPc.remains hw new
    have hbefore := h.wg_eq
    show wg = (s.workers.set w new).countP WorkerPc.remains
    omega
  panicked := by
    intro hmem
    rcases List.mem_or_eq_of_mem_set hmem with hmem | heq
    · exact hcrashed (.inl (h.panicked hmem))
    · exact hcrashed (.inr heq.symm)
  output_le := h.output_le

/-- A worker that goes on without returning or panicking. -/
theorem workerStays (h : StopInvariant s) {w : Nat} {old new : WorkerPc Job}
    (hw : s.workers[w]? = some old) (hold : old.remains = true)
    (hnew : new.remains = true) (hpanic : new ≠ .panicked) :
    StopInvariant (s.workerGoto w new) :=
  h.workerGoto hw (by rw [hold, hnew])
    (fun hcrash => hcrash.resolve_right hpanic)

theorem workerCrash (h : StopInvariant s) {w : Nat} {old : WorkerPc Job}
    (hw : s.workers[w]? = some old) (hold : old.remains = true) :
    StopInvariant (s.workerCrash w) :=
  h.workerGoto hw (by rw [hold]; rfl) fun _ => rfl

theorem workerQuit (h : StopInvariant s) {w : Nat} {old : WorkerPc Job}
    (hw : s.workers[w]? = some old) (hold : old.remains = true) :
    StopInvariant { s.workerGoto w .exited with wg := s.wg - 1 } := by
  have hpos : 0 < s.wg := by
    rw [h.wg_eq]
    exact List.countP_pos_iff.mpr ⟨old, List.mem_of_getElem? hw, hold⟩
  refine h.workerGoto hw ?_ (fun hcrash => hcrash.resolve_right (by simp))
  rw [hold]
  show s.wg - 1 + 1 = s.wg
  omega

/-- **Every step preserves the invariant.** -/
theorem step (h : StopInvariant s) {a : Action Job} {t : State Job}
    (hstep : Step s a t) : StopInvariant t := by
  cases hstep.2 with
  | submit | ctxDone | submitCtx | submitStopped | submitSend
  | submitSendClosed =>
      exact ⟨h.done_eq, h.jobsClosed_eq, h.outputClosed, h.tickerStopped,
        h.wg_eq, h.panicked, h.output_le⟩
  | stopBegins hstop | closeDone hstop | closeJobs hstop | wgWait hstop _
  | tickerStop hstop =>
      have hdone := h.done_eq
      have hjobs := h.jobsClosed_eq
      have houtput := h.outputClosed
      have hticker := h.tickerStopped
      rw [hstop] at hdone hjobs houtput hticker
      refine ⟨?_, ?_, ?_, ?_, h.wg_eq, h.panicked, h.output_le⟩ <;>
        simp_all [StopPc.closedDone, StopPc.closedJobs]
  | closeOutput hstop =>
      have hdone := h.done_eq
      have hjobs := h.jobsClosed_eq
      rw [hstop] at hdone hjobs
      exact ⟨hdone, hjobs, fun _ => rfl, fun _ => .inr rfl, h.wg_eq,
        h.panicked, h.output_le⟩
  | tick _ =>
      exact { h with }
  | workerQuit w pc hw hpc _ =>
      exact h.workerQuit hw (by rcases hpc with rfl | rfl <;> rfl)
  | workerToken w hw _ =>
      exact { h.workerStays hw rfl rfl (by simp) with }
  | workerReceive w currJob rest hw _ =>
      have hstays := h.workerStays hw rfl
        (rfl : (WorkerPc.running currJob).remains = true) (by simp)
      exact { hstays with }
  | workerReceiveClosed w hw _ _ => exact { h.workerCrash hw rfl with }
  | jobReturns w currJob result hw =>
      have hstays := h.workerStays hw rfl
        (rfl : (WorkerPc.sending result : WorkerPc Job).remains = true)
        (by simp)
      exact { hstays with }
  | jobPanics w currJob hw => exact h.workerCrash hw rfl
  | workerSend w result hw _ hroom =>
      exact
        { h.workerStays hw rfl rfl (by simp) with
          output_le := by
            show (s.output ++ [result]).length ≤ s.workerCount
            rw [List.length_append, List.length_singleton]
            exact hroom }
  | workerSendClosed w result hw _ => exact h.workerCrash hw rfl
  | consume result rest houtput =>
      have hle := h.output_le
      rw [houtput, List.length_cons] at hle
      exact { h with output_le := Nat.le_of_succ_le hle }

end StopInvariant

/-- Workers that have all returned stay so. -/
theorem exited_step {s t : State Job} {a : Action Job} (h : Step s a t)
    (hall : ∀ pc ∈ s.workers, pc.remains = false) :
    ∀ pc ∈ t.workers, pc.remains = false := by
  have hnone : ∀ {w : Nat} {pc : WorkerPc Job}, s.workers[w]? = some pc →
      pc.remains = false := fun hw => hall _ (List.mem_of_getElem? hw)
  cases h.2 with
  | workerQuit w pc hw hpc _ =>
      have hremains := hnone hw
      rcases hpc with rfl | rfl <;> cases hremains
  | workerToken w hw _ | workerReceive w _ _ hw _
  | workerReceiveClosed w hw _ _ | jobReturns w _ _ hw | jobPanics w _ hw
  | workerSend w _ hw _ _ | workerSendClosed w _ hw _ => cases hnone hw
  | _ => exact hall

/-! ## Stranded -/

/-- The steps of the workers and of `Stop`. -/
def Action.byWorkerOrStop : Action Job → Bool
  | .stop => true
  | .workerQuit _ => true
  | .workerToken _ => true
  | .workerReceive _ => true
  | .jobReturns _ _ => true
  | .workerSend _ => true
  | _ => false

/-- `done` is closed and `Stop` has not returned, but neither a worker nor
`Stop` has a step. -/
def Stranded (s : State Job) : Prop :=
  s.done = true ∧ s.stop ≠ .returned ∧ s.crashed = false ∧
    ∀ a t, a.byWorkerOrStop = true → ¬ Step s a t

/-- The worker waits at its send. -/
def WorkerPc.atSend : WorkerPc Job → Bool
  | .sending _ => true
  | _ => false

/-- `Stop` waits for workers, all of which wait at their sends on a full
`output`. -/
structure AllAtSend (s : State Job) : Prop where
  stop : s.stop = .waiting
  crashed : s.crashed = false
  full : s.output.length = s.workerCount
  remains : ∃ pc ∈ s.workers, pc.remains = true
  sending : ∀ pc ∈ s.workers, pc.remains = true → pc.atSend = true

namespace StopInvariant

variable {s : State Job}

theorem outputClosed_eq_false (h : StopInvariant s)
    (hstop : s.stop ≠ .returned) : s.outputClosed = false := by
  cases houtput : s.outputClosed with
  | false => rfl
  | true => exact absurd (h.outputClosed houtput) hstop

theorem wg_ne_zero (h : StopInvariant s) :
    s.wg ≠ 0 ↔ ∃ pc ∈ s.workers, pc.remains = true := by
  rw [h.wg_eq, ← Nat.pos_iff_ne_zero]
  exact List.countP_pos_iff

/-- In a stranded state a worker that remains waits at its send. -/
theorem atSend_of_stranded (h : StopInvariant s) (hstranded : Stranded s)
    {pc : WorkerPc Job} (hpc : pc ∈ s.workers) (hremains : pc.remains = true) :
    pc.atSend = true ∧ s.output.length = s.workerCount := by
  obtain ⟨hdone, hstop, hcrashed, hblocked⟩ := hstranded
  obtain ⟨w, hw⟩ := List.mem_iff_getElem?.mp hpc
  cases pc with
  | outer =>
      exact absurd ⟨hcrashed, .workerQuit s w _ hw (.inl rfl) hdone⟩
        (hblocked _ _ rfl)
  | inner =>
      exact absurd ⟨hcrashed, .workerQuit s w _ hw (.inr rfl) hdone⟩
        (hblocked _ _ rfl)
  | running currJob =>
      exact absurd ⟨hcrashed, .jobReturns s w currJob "" hw⟩
        (hblocked _ _ rfl)
  | sending result =>
      refine ⟨rfl, Nat.le_antisymm h.output_le (Nat.not_lt.mp fun hroom => ?_)⟩
      exact hblocked _ _ rfl ⟨hcrashed, .workerSend s w result hw
        (h.outputClosed_eq_false hstop) hroom⟩
  | exited => cases hremains
  | panicked =>
      have hcrash := h.panicked hpc
      rw [hcrashed] at hcrash
      cases hcrash

/-- In a stranded state `Stop` waits for the workers, which are not done. -/
theorem waiting_of_stranded (hstranded : Stranded s) :
    s.stop = .waiting ∧ s.wg ≠ 0 := by
  obtain ⟨hdone, hstop, hcrashed, hblocked⟩ := hstranded
  have hmoves : ∀ t, ¬ Move s .stop t := fun t hmove =>
    hblocked .stop t rfl ⟨hcrashed, hmove⟩
  have hwaiting : s.stop = .waiting := by
    cases hpc : s.stop with
    | notCalled => exact absurd (.stopBegins s hpc) (hmoves _)
    | closingDone => exact absurd (.closeDone s hpc) (hmoves _)
    | closingJobs => exact absurd (.closeJobs s hpc) (hmoves _)
    | waiting => rfl
    | stoppingTicker => exact absurd (.tickerStop s hpc) (hmoves _)
    | closingOutput => exact absurd (.closeOutput s hpc) (hmoves _)
    | returned => exact absurd hpc hstop
  exact ⟨hwaiting, fun hzero => hmoves _ (.wgWait s hwaiting hzero)⟩

theorem allAtSend_of_stranded (h : StopInvariant s)
    (hstranded : Stranded s) : AllAtSend s := by
  have hsends : ∀ pc ∈ s.workers, pc.remains = true →
      pc.atSend = true ∧ s.output.length = s.workerCount :=
    fun _ hpc => h.atSend_of_stranded hstranded hpc
  obtain ⟨hwaiting, hwg⟩ := waiting_of_stranded hstranded
  obtain ⟨pc, hpc, hremains⟩ := h.wg_ne_zero.mp hwg
  obtain ⟨-, -, hcrashed, -⟩ := hstranded
  exact ⟨hwaiting, hcrashed, (hsends pc hpc hremains).2,
    ⟨pc, hpc, hremains⟩, fun pc hpc hremains => (hsends pc hpc hremains).1⟩

theorem stranded_of_allAtSend (h : StopInvariant s) (hall : AllAtSend s) :
    Stranded s := by
  have hdone : s.done = true := by
    rw [h.done_eq, hall.stop]
    rfl
  have hwg := h.wg_ne_zero.mpr hall.remains
  have hwaiting := hall.stop
  have hat : ∀ {w : Nat} {pc : WorkerPc Job}, s.workers[w]? = some pc →
      pc.remains = true → pc.atSend = true := fun hw =>
    hall.sending _ (List.mem_of_getElem? hw)
  refine ⟨hdone, by simp [hwaiting], hall.crashed, ?_⟩
  rintro a t ha ⟨-, hmove⟩
  cases hmove with
  | stopBegins hstop | closeDone hstop | closeJobs hstop | tickerStop hstop
  | closeOutput hstop => simp [hwaiting] at hstop
  | wgWait _ hzero => exact hwg hzero
  | workerQuit w pc hw hpc _ =>
      rcases hpc with rfl | rfl <;> cases hat hw rfl
  | workerToken w hw _ => cases hat hw rfl
  | workerReceive w currJob rest hw _ => cases hat hw rfl
  | workerReceiveClosed w hw _ _ => cases hat hw rfl
  | jobReturns w currJob result hw => cases hat hw rfl
  | workerSend w result _ _ hroom =>
      have hfull := hall.full
      omega
  | workerSendClosed w result _ hclosed =>
      have hopen := h.outputClosed_eq_false (by simp [hwaiting])
      rw [hopen] at hclosed
      cases hclosed
  | _ => cases ha

/-- **What stranded means.**  `Stop` waits, some worker remains, and every
such worker waits to send on a full `output`. -/
theorem stranded_iff (h : StopInvariant s) : Stranded s ↔ AllAtSend s :=
  ⟨h.allAtSend_of_stranded, h.stranded_of_allAtSend⟩

end StopInvariant

/-- Where `done` is closed and `jobs` is not, `Stop` is between the two. -/
theorem StopInvariant.closingJobs {s : State Job} (h : StopInvariant s)
    (hdone : s.done = true) (hopen : s.jobsClosed = false) :
    s.stop = .closingJobs := by
  rw [h.done_eq] at hdone
  rw [h.jobsClosed_eq] at hopen
  cases hstop : s.stop with
  | closingJobs => rfl
  | notCalled | closingDone => rw [hstop] at hdone; cases hdone
  | waiting | stoppingTicker | closingOutput | returned =>
      rw [hstop] at hopen
      cases hopen

/-- `jobs` is closed after `done`. -/
theorem StopInvariant.done_of_jobsClosed {s : State Job}
    (h : StopInvariant s) (hclosed : s.jobsClosed = true) :
    s.done = true := by
  rw [h.jobsClosed_eq] at hclosed
  rw [h.done_eq]
  cases hstop : s.stop with
  | notCalled | closingDone | closingJobs =>
      rw [hstop] at hclosed
      cases hclosed
  | waiting | stoppingTicker | closingOutput | returned => rfl

/-! ## While `Stop` waits -/

/-- `Stop` waits in a process that runs. -/
structure Waits (s : State Job) : Prop where
  invariant : StopInvariant s
  stop : s.stop = .waiting
  crashed : s.crashed = false

namespace Waits

variable {s : State Job}

theorem done (h : Waits s) : s.done = true := by
  rw [h.invariant.done_eq, h.stop]
  rfl

theorem jobsClosed (h : Waits s) : s.jobsClosed = true := by
  rw [h.invariant.jobsClosed_eq, h.stop]
  rfl

theorem outputClosed (h : Waits s) : s.outputClosed = false :=
  h.invariant.outputClosed_eq_false (by simp [h.stop])

theorem tickerStopped (h : Waits s) : s.tickerStopped = false := by
  cases hstopped : s.tickerStopped with
  | false => rfl
  | true =>
      have hstop := h.invariant.tickerStopped hstopped
      rw [h.stop] at hstop
      rcases hstop with hstop | hstop <;> cases hstop

/-- Where a worker stands that has not panicked. -/
theorem pc_cases (h : Waits s) {pc : WorkerPc Job} (hpc : pc ∈ s.workers) :
    (∃ currJob, pc = .running currJob) ∨ (∃ result, pc = .sending result) ∨
      (pc = .outer ∨ pc = .inner) ∨ pc = .exited := by
  cases pc with
  | running currJob => exact .inl ⟨currJob, rfl⟩
  | sending result => exact .inr (.inl ⟨result, rfl⟩)
  | outer => exact .inr (.inr (.inl (.inl rfl)))
  | inner => exact .inr (.inr (.inl (.inr rfl)))
  | exited => exact .inr (.inr (.inr rfl))
  | panicked =>
      have hcrash := h.invariant.panicked hpc
      rw [h.crashed] at hcrash
      cases hcrash

end Waits

end GoPrep.Ports.Dispatcher
