import GoPrep.Ports.DispatcherResults
import GoPrep.Verified.Inevitable

/-!
# The dispatcher settles

When no further `Submit` begins, the jobs return, the ticker ticks whenever its
slot is empty and somebody receives from `Results()`, the dispatcher comes to
rest in every schedule.  Without a call of `Stop` it does so with every
accepted job run once and every result received.  After a call of `Stop` it
does so with `Stop` returned, unless a worker has called the nil function that
the closed `jobs` channel yields.

A job costs a tick, a token, a receive, a call, a send and a receive of its
result; the rank below counts these.

## Main results

* `rank_owedStep` — every step that is still owed lowers the rank.
* `ServiceInvariant.step` — workers exit only after `done` is closed, and jobs
  that were called are running or have a result.
* `dispatcher_settles` — the dispatcher serves everybody, and stops.
-/

namespace GoPrep.Ports.Dispatcher

open GoPrep.Verified.ThreadTable
open GoPrep.Verified.Transition
open scoped List

variable {Job : Type}

/-! ## The steps owed -/

/-- The action is one that the goroutines owe each other: not a new call, a
panic of a job, or a tick that is dropped. -/
def State.Owes (s : State Job) : Action Job → Prop
  | .submit _ => False
  | .ctxDone _ => False
  | .jobPanics _ => False
  | .stop => s.stop ≠ .notCalled
  | .tick => s.token = false
  | _ => True

def OwedStep (s : State Job) (a : Action Job) (t : State Job) : Prop :=
  Step s a t ∧ s.Owes a

/-! ## The rank -/

def SubmitPc.rank : SubmitPc → Nat
  | .atSelect => 7
  | _ => 0

def WorkerPc.rank : WorkerPc Job → Nat
  | .outer => 3
  | .inner => 1
  | .running _ => 6
  | .sending _ => 5
  | .exited => 0
  | .panicked => 0

def StopPc.rank : StopPc → Nat
  | .notCalled => 6
  | .closingDone => 5
  | .closingJobs => 4
  | .waiting => 3
  | .stoppingTicker => 2
  | .closingOutput => 1
  | .returned => 0

def State.rank (s : State Job) : Nat :=
  (s.submits.map fun call => call.pc.rank).sum + 6 * s.jobs.length +
    (s.workers.map WorkerPc.rank).sum + s.output.length + s.stop.rank +
    (!s.token).toNat

theorem rank_submitGoto {s : State Job} {c : Nat} {call : SubmitCall Job}
    (hc : s.submits[c]? = some call) (pc : SubmitPc) :
    (s.submitGoto c call pc).rank + call.pc.rank = s.rank + pc.rank := by
  have hsum := sum_map_set (fun call : SubmitCall Job => call.pc.rank) hc
    { call with pc := pc }
  have hpc : ({ call with pc := pc } : SubmitCall Job).pc.rank = pc.rank :=
    rfl
  simp only [State.rank, State.submitGoto]
  omega

theorem rank_workerGoto {s : State Job} {w : Nat} {old : WorkerPc Job}
    (hw : s.workers[w]? = some old) (new : WorkerPc Job) :
    (s.workerGoto w new).rank + old.rank = s.rank + new.rank := by
  have hsum := sum_map_set WorkerPc.rank hw new
  simp only [State.rank, State.workerGoto]
  omega

/-- **Every step that is owed uses up some of the rank.** -/
theorem rank_owedStep {s t : State Job} {a : Action Job}
    (h : OwedStep s a t) : t.rank < s.rank := by
  obtain ⟨⟨-, hmove⟩, howes⟩ := h
  cases hmove with
  | submit | ctxDone | jobPanics => exact howes.elim
  | stopBegins hstop => exact absurd hstop howes
  | closeDone hstop | closeJobs hstop | wgWait hstop | tickerStop hstop
  | closeOutput hstop =>
      simp only [State.rank, hstop, StopPc.rank]
      omega
  | tick _ =>
      have htoken : s.token = false := howes
      simp [State.rank, htoken]
  | submitCtx c call hc hpc _ | submitStopped c call hc hpc _
  | submitSendClosed c call hc hpc _ =>
      have hgoto := rank_submitGoto hc
      rw [hpc] at hgoto
      have hselect : SubmitPc.rank .atSelect = 7 := rfl
      have hleft := hgoto .ctxErr
      have hright := hgoto .stopped
      have hpanic := hgoto .panicked
      simp only [SubmitPc.rank] at hleft hright hpanic
      omega
  | submitSend c call hc hpc _ _ =>
      have hgoto := rank_submitGoto hc .accepted
      rw [hpc] at hgoto
      simp only [State.rank, State.place, State.submitGoto, SubmitPc.rank,
        List.length_append, List.length_singleton] at hgoto ⊢
      omega
  | workerQuit w pc hw hpc _ =>
      have hgoto := rank_workerGoto hw .exited
      rcases hpc with rfl | rfl
      all_goals
        simp only [State.rank, State.workerGoto, WorkerPc.rank] at hgoto ⊢
        omega
  | workerToken w hw htoken =>
      have hgoto := rank_workerGoto hw .inner
      simp only [State.rank, State.workerGoto, WorkerPc.rank, htoken,
        Bool.not_true, Bool.not_false, Bool.toNat_true,
        Bool.toNat_false] at hgoto ⊢
      omega
  | workerReceive w currJob rest hw hjobs =>
      have hgoto := rank_workerGoto hw (.running currJob)
      simp only [State.rank, State.take, State.workerGoto, WorkerPc.rank,
        hjobs, List.length_cons] at hgoto ⊢
      omega
  | workerReceiveClosed w hw _ _ =>
      have hgoto := rank_workerGoto hw .panicked
      simp only [State.rank, State.workerCrash, State.workerGoto,
        WorkerPc.rank] at hgoto ⊢
      omega
  | jobReturns w currJob result hw =>
      have hgoto := rank_workerGoto hw (.sending result)
      simp only [State.rank, State.workerGoto, WorkerPc.rank] at hgoto ⊢
      omega
  | workerSend w result hw _ _ =>
      have hgoto := rank_workerGoto hw .outer
      simp only [State.rank, State.workerGoto, WorkerPc.rank,
        List.length_append, List.length_singleton] at hgoto ⊢
      omega
  | workerSendClosed w result hw _ =>
      have hgoto := rank_workerGoto hw .panicked
      simp only [State.rank, State.workerCrash, State.workerGoto,
        WorkerPc.rank] at hgoto ⊢
      omega
  | consume result rest houtput =>
      simp only [State.rank, houtput, List.length_cons]
      omega

/-! ## Workers and jobs -/

def WorkerPc.isRunning : WorkerPc Job → Bool
  | .running _ => true
  | _ => false

/-- The workers are all there, they exit after `done` is closed, and a job
that was called is running or has a result. -/
structure ServiceInvariant (n : Nat) (s : State Job) : Prop where
  workerCount : s.workerCount = n
  workers : s.workers.length = n
  exited : .exited ∈ s.workers → s.done = true
  called : s.crashed = false →
    s.executed.length + s.workers.countP WorkerPc.isRunning =
      s.calledJobs.length

theorem serviceInvariant_initial (n : Nat) :
    ServiceInvariant n (State.initial n : State Job) where
  workerCount := rfl
  workers := List.length_replicate
  exited := by simp [State.initial, List.mem_replicate]
  called := fun _ => by
    simp [State.initial, State.calledJobs, WorkerPc.isRunning,
      List.countP_replicate]

namespace ServiceInvariant

variable {n : Nat} {s t : State Job} {a : Action Job}

/-- Worker `w` moves on. -/
theorem set (h : ServiceInvariant n s) {w : Nat} {new : WorkerPc Job}
    (hnew : new = .exited → s.done = true)
    (hcount : t.workerCount = s.workerCount) (hdone : t.done = s.done)
    (hworkers : t.workers = s.workers.set w new)
    (hcalled : t.crashed = false →
      t.executed.length + t.workers.countP WorkerPc.isRunning =
        t.calledJobs.length) : ServiceInvariant n t := by
  refine ⟨hcount.trans h.workerCount, ?_, fun hmem => ?_, hcalled⟩
  · rw [hworkers, List.length_set, h.workers]
  · rw [hworkers] at hmem
    rw [hdone]
    rcases List.mem_or_eq_of_mem_set hmem with hmem | heq
    · exact h.exited hmem
    · exact hnew heq.symm

/-- **Every step preserves the invariant.** -/
theorem step (h : ServiceInvariant n s) (hstep : Step s a t) :
    ServiceInvariant n t := by
  obtain ⟨hcrashed, hmove⟩ := hstep
  have hcalled := h.called hcrashed
  cases hmove with
  | closeDone _ => exact ⟨h.workerCount, h.workers, fun _ => rfl, h.called⟩
  | workerQuit w pc hw hpc hdone =>
      have hcount := countP_set WorkerPc.isRunning hw .exited
      refine h.set (fun _ => hdone) rfl rfl rfl fun _ => ?_
      rcases hpc with rfl | rfl
      · exact (congrArg (s.executed.length + ·) hcount).trans hcalled
      · exact (congrArg (s.executed.length + ·) hcount).trans hcalled
  | workerToken w hw _ =>
      have hcount := countP_set WorkerPc.isRunning hw .inner
      refine h.set (fun heq => by cases heq) rfl rfl rfl fun _ => ?_
      exact (congrArg (s.executed.length + ·) hcount).trans hcalled
  | workerReceive w currJob rest hw _ =>
      have hcount := countP_set WorkerPc.isRunning hw (.running currJob)
      refine h.set (fun heq => by cases heq) rfl rfl rfl fun _ => ?_
      show s.executed.length +
          (s.workers.set w (.running currJob)).countP WorkerPc.isRunning =
        (s.called ++ [some currJob]).reduceOption.length
      rw [List.reduceOption_append, List.length_append]
      simp only [WorkerPc.isRunning, Bool.false_eq_true, if_false,
        if_true] at hcount
      have hone : [some currJob].reduceOption.length = 1 := rfl
      rw [State.calledJobs] at hcalled
      omega
  | jobReturns w currJob result hw =>
      have hcount := countP_set WorkerPc.isRunning hw (.sending result)
      refine h.set (fun heq => by cases heq) rfl rfl rfl fun _ => ?_
      show (s.executed ++ [result]).length +
          (s.workers.set w (.sending result)).countP WorkerPc.isRunning =
        s.calledJobs.length
      rw [List.length_append, List.length_singleton]
      simp only [WorkerPc.isRunning, Bool.false_eq_true, if_false,
        if_true] at hcount
      omega
  | workerSend w result hw _ _ =>
      have hcount := countP_set WorkerPc.isRunning hw .outer
      refine h.set (fun heq => by cases heq) rfl rfl rfl fun _ => ?_
      exact (congrArg (s.executed.length + ·) hcount).trans hcalled
  | workerReceiveClosed w _ _ _ | jobPanics w _ _ | workerSendClosed w _ _ =>
      have hnew : (.panicked : WorkerPc Job) = .exited → s.done = true :=
        fun heq => by cases heq
      exact h.set hnew rfl rfl rfl fun hlive => by cases hlive
  | _ => exact ⟨h.workerCount, h.workers, h.exited, h.called⟩

end ServiceInvariant

/-! ## The dispatcher at rest -/

/-- Every call has been answered, if by a panic that its caller recovered:
each accepted job has run once, and its result was received. -/
structure Served (p : State Job × List (Placed Job × String)) : Prop where
  crashed : p.1.crashed = false
  submits : ∀ call ∈ p.1.submits, call.pc ≠ .atSelect
  ran : (p.2.map Prod.fst).Perm p.1.placed
  received : p.1.received.Perm (p.2.map Prod.snd)

/-- `Stop` and the workers have returned, every `Submit` has been answered, if
by a panic that its caller recovered, and the results of the jobs that ran were
received. -/
structure StoppedAtRest (p : State Job × List (Placed Job × String)) :
    Prop where
  stop : p.1.stop = .returned
  workers : ∀ pc ∈ p.1.workers, pc = .exited
  submits : ∀ call ∈ p.1.submits, call.pc ≠ .atSelect
  ran : (p.2.map Prod.fst).Perm p.1.calledJobs
  received : p.1.received.Perm (p.2.map Prod.snd)

/-- No step is owed. -/
def Stuck (s : State Job) : Prop := ∀ a t, ¬ OwedStep s a t

namespace Stuck

variable {n : Nat} {s : State Job}

theorem no_move (hstuck : Stuck s) (hcrashed : s.crashed = false)
    {a : Action Job} {t : State Job} (hmove : Move s a t)
    (howes : s.Owes a) : False :=
  hstuck a t ⟨⟨hcrashed, hmove⟩, howes⟩

theorem output_eq_nil (hstuck : Stuck s) (hcrashed : s.crashed = false) :
    s.output = [] := by
  cases houtput : s.output with
  | nil => rfl
  | cons result rest =>
      exact (hstuck.no_move hcrashed (.consume s result rest houtput)
        trivial).elim

/-- `Stop` was not called, waits for the workers, or has returned. -/
theorem stop_cases (hstuck : Stuck s) (hcrashed : s.crashed = false) :
    s.stop = .notCalled ∨ (s.stop = .waiting ∧ s.wg ≠ 0) ∨
      s.stop = .returned := by
  have hmoves : ∀ t, s.stop ≠ .notCalled → ¬ Move s .stop t :=
    fun t hcalled hmove => hstuck.no_move hcrashed hmove hcalled
  cases hstop : s.stop with
  | notCalled => exact .inl rfl
  | closingDone =>
      exact absurd (.closeDone s hstop) (hmoves _ (by simp [hstop]))
  | closingJobs =>
      exact absurd (.closeJobs s hstop) (hmoves _ (by simp [hstop]))
  | waiting =>
      exact .inr (.inl ⟨rfl, fun hzero =>
        hmoves _ (by simp [hstop]) (.wgWait s hstop hzero)⟩)
  | stoppingTicker =>
      exact absurd (.tickerStop s hstop) (hmoves _ (by simp [hstop]))
  | closingOutput =>
      exact absurd (.closeOutput s hstop) (hmoves _ (by simp [hstop]))
  | returned => exact .inr (.inr rfl)

/-- A worker waits for a job, or has exited. -/
theorem worker_cases (hstuck : Stuck s) (hcrashed : s.crashed = false)
    (hinv : StopInvariant s) (h : ServiceInvariant n s) {pc : WorkerPc Job}
    (hpc : pc ∈ s.workers) :
    (pc = .inner ∧ s.done = false ∧ s.jobs = []) ∨ pc = .exited := by
  obtain ⟨w, hw⟩ := List.mem_iff_getElem?.mp hpc
  have hempty := hstuck.output_eq_nil hcrashed
  have hnotDone : (pc = .outer ∨ pc = .inner) → s.done = false := by
    intro hselect
    cases hdone : s.done with
    | false => rfl
    | true =>
        exact (hstuck.no_move hcrashed (.workerQuit s w pc hw hselect hdone)
          trivial).elim
  cases pc with
  | outer =>
      exfalso
      have hdone := hnotDone (.inl rfl)
      cases htoken : s.token with
      | true =>
          exact hstuck.no_move hcrashed (.workerToken s w hw htoken) trivial
      | false =>
          refine hstuck.no_move hcrashed (.tick s ?_) htoken
          cases hstopped : s.tickerStopped with
          | false => rfl
          | true =>
              have hclosed := hinv.done_eq
              rcases hinv.tickerStopped hstopped with hstop | hstop
              all_goals
                rw [hdone, hstop] at hclosed
                cases hclosed
  | inner =>
      have hdone := hnotDone (.inr rfl)
      refine .inl ⟨rfl, hdone, ?_⟩
      cases hjobs : s.jobs with
      | nil => rfl
      | cons currJob rest =>
          exact (hstuck.no_move hcrashed
            (.workerReceive s w currJob rest hw hjobs) trivial).elim
  | running currJob =>
      exact (hstuck.no_move hcrashed (.jobReturns s w currJob "" hw)
        trivial).elim
  | sending result =>
      exfalso
      cases hclosed : s.outputClosed with
      | true =>
          exact hstuck.no_move hcrashed
            (.workerSendClosed s w result hw hclosed) trivial
      | false =>
          refine hstuck.no_move hcrashed
            (.workerSend s w result hw hclosed ?_) trivial
          have hlt := lt_length_of_getElem? hw
          rw [h.workers] at hlt
          rw [hempty, h.workerCount]
          exact Nat.lt_of_le_of_lt (Nat.zero_le w) hlt
  | exited => exact .inr rfl
  | panicked =>
      have hcrash := hinv.panicked hpc
      rw [hcrashed] at hcrash
      cases hcrash

end Stuck

/-- What every reachable state with its record satisfies. -/
structure SettleInvariant (n : Nat)
    (p : State Job × List (Placed Job × String)) : Prop where
  results : ResultsInvariant p
  service : ServiceInvariant n p.1

namespace SettleInvariant

variable {n : Nat} {p q : State Job × List (Placed Job × String)}
  {a : Action Job}

theorem step (h : SettleInvariant n p)
    (hstep : Recording Step State.returning p a q) : SettleInvariant n q :=
  ⟨h.results.step hstep, h.service.step hstep.1⟩

theorem owedStep (h : SettleInvariant n p)
    (hstep : Recording OwedStep State.returning p a q) :
    SettleInvariant n q :=
  h.step ⟨hstep.1.1, hstep.2⟩

/-- The jobs that ran have left the workers, and so have their results. -/
theorem ran_received (h : SettleInvariant n p) (hcrashed : p.1.crashed = false)
    (hstuck : Stuck p.1) :
    (p.2.map Prod.fst).Perm p.1.calledJobs ∧
      p.1.received.Perm (p.2.map Prod.snd) := by
  obtain ⟨s, results⟩ := p
  have hidle : ∀ pc ∈ s.workers, pc = .inner ∨ pc = .exited := by
    intro pc hpc
    refine (hstuck.worker_cases hcrashed h.results.stop h.service hpc).imp_left
      fun hinner => hinner.1
  have hcurr : s.workers.filterMap WorkerPc.currJob = [] := by
    rw [List.filterMap_eq_nil_iff]
    intro pc hpc
    rcases hidle pc hpc with rfl | rfl <;> rfl
  have hheld : s.workers.filterMap WorkerPc.held = [] := by
    rw [List.filterMap_eq_nil_iff]
    intro pc hpc
    rcases hidle pc hpc with rfl | rfl <;> rfl
  have hrunning : s.workers.countP WorkerPc.isRunning = 0 := by
    rw [List.countP_eq_zero]
    intro pc hpc
    rcases hidle pc hpc with rfl | rfl <;> exact Bool.false_ne_true
  have hexecuted : s.executed = results.map Prod.snd := h.results.executed
  constructor
  · have hstarted : results.map Prod.fst ++
        s.workers.filterMap WorkerPc.currJob <+~ s.calledJobs :=
      h.results.started
    rw [hcurr, List.append_nil] at hstarted
    have hcalled := h.service.called hcrashed
    rw [hrunning, hexecuted, List.length_map] at hcalled
    refine hstarted.perm_of_length_le ?_
    rw [List.length_map]
    exact Nat.le_of_eq hcalled.symm
  · have hall : (s.received ++ s.output ++
        s.workers.filterMap WorkerPc.held).Perm s.executed := h.results.held
    rw [hstuck.output_eq_nil hcrashed, hheld, List.append_nil,
      List.append_nil, hexecuted] at hall
    exact hall

/-- A `Submit` that waits can be answered. -/
theorem no_waiting_submit (h : SettleInvariant n p) (hn : 1 ≤ n)
    (hcrashed : p.1.crashed = false) (hstuck : Stuck p.1) :
    ∀ call ∈ p.1.submits, call.pc ≠ .atSelect := by
  obtain ⟨s, results⟩ := p
  intro call hcall hselect
  obtain ⟨c, hc⟩ := List.mem_iff_getElem?.mp hcall
  cases hdone : s.done with
  | true =>
      exact hstuck.no_move hcrashed (.submitStopped s c call hc hselect hdone)
        trivial
  | false =>
      have hclosed := h.results.stop.done_eq
      have hjobs := h.results.stop.jobsClosed_eq
      have hopen : s.jobsClosed = false := by
        rw [hjobs]
        cases hstop : s.stop with
        | notCalled | closingDone => rfl
        | _ =>
            rw [hdone, hstop] at hclosed
            cases hclosed
      have hworker : 0 < s.workers.length :=
        Nat.lt_of_lt_of_eq hn h.service.workers.symm
      have hfirst := List.getElem_mem hworker
      rcases hstuck.worker_cases hcrashed h.results.stop h.service hfirst with
        ⟨-, -, hempty⟩ | hexited
      · refine hstuck.no_move hcrashed
          (.submitSend s c call hc hselect hopen ?_) trivial
        rw [hempty, h.service.workerCount]
        exact hn
      · rw [hexited] at hfirst
        cases hdone.symm.trans (h.service.exited hfirst)

theorem served (h : SettleInvariant n p) (hn : 1 ≤ n)
    (hcrashed : p.1.crashed = false) (hstop : p.1.stop = .notCalled)
    (hstuck : Stuck p.1) : Served p := by
  obtain ⟨hran, hreceived⟩ := h.ran_received hcrashed hstuck
  have hnotDone : p.1.done = false := by
    rw [h.results.stop.done_eq, hstop]
    rfl
  have hworker : 0 < p.1.workers.length :=
    Nat.lt_of_lt_of_eq hn h.service.workers.symm
  have hfirst := List.getElem_mem hworker
  have hempty : p.1.jobs = [] := by
    rcases hstuck.worker_cases hcrashed h.results.stop h.service hfirst with
      ⟨-, -, hempty⟩ | hexited
    · exact hempty
    · rw [hexited] at hfirst
      cases hnotDone.symm.trans (h.service.exited hfirst)
  have hfifo := h.results.jobs.fifo
  rw [hempty, List.append_nil] at hfifo
  rw [hfifo] at hran
  exact ⟨hcrashed, h.no_waiting_submit hn hcrashed hstuck, hran, hreceived⟩

theorem stoppedAtRest (h : SettleInvariant n p) (hn : 1 ≤ n)
    (hcrashed : p.1.crashed = false) (hstop : p.1.stop ≠ .notCalled)
    (hstuck : Stuck p.1) : StoppedAtRest p := by
  obtain ⟨hran, hreceived⟩ := h.ran_received hcrashed hstuck
  have hworkers := fun {pc} (hpc : pc ∈ p.1.workers) =>
    hstuck.worker_cases hcrashed h.results.stop h.service hpc
  have hdone : p.1.stop ≠ .closingDone → p.1.done = true := by
    intro hpast
    rw [h.results.stop.done_eq]
    cases hpc : p.1.stop with
    | notCalled => exact absurd hpc hstop
    | closingDone => exact absurd hpc hpast
    | _ => rfl
  rcases hstuck.stop_cases hcrashed with hnone | ⟨hwaiting, hwg⟩ | hreturned
  · exact absurd hnone hstop
  · obtain ⟨pc, hpc, hremains⟩ := h.results.stop.wg_ne_zero.mp hwg
    rcases hworkers hpc with ⟨-, hopen, -⟩ | rfl
    · cases hopen.symm.trans (hdone (by simp [hwaiting]))
    · cases hremains
  · refine ⟨hreturned, fun pc hpc => ?_,
      h.no_waiting_submit hn hcrashed hstuck, hran, hreceived⟩
    rcases hworkers hpc with ⟨-, hopen, -⟩ | hexited
    · cases hopen.symm.trans (hdone (by simp [hreturned]))
    · exact hexited

/-- A step that is owed ends the process only by a call of nil, which takes a
closed `jobs`. -/
theorem crashed_step (h : SettleInvariant n p)
    (hstep : Recording OwedStep State.returning p a q) :
    q.1.crashed = true → none ∈ q.1.called ∧ p.1.jobsClosed = true := by
  obtain ⟨s, results⟩ := p
  obtain ⟨t, results'⟩ := q
  obtain ⟨⟨⟨hcrashed, hmove⟩, howes⟩, -⟩ := hstep
  intro hcrash
  cases hmove with
  | jobPanics => exact howes.elim
  | workerReceiveClosed w _ _ hclosed =>
      exact ⟨List.mem_append_right _ (List.mem_singleton.mpr rfl), hclosed⟩
  | workerSendClosed w result hw hclosed =>
      cases hclosed.symm.trans (h.results.outputClosed_of_sending hw)
  | _ => cases hcrashed.symm.trans hcrash

end SettleInvariant

/-- No step that is owed begins `Stop`. -/
theorem OwedStep.stop_iff {s t : State Job} {a : Action Job}
    (h : OwedStep s a t) : t.stop = .notCalled ↔ s.stop = .notCalled := by
  obtain ⟨⟨-, hmove⟩, howes⟩ := h
  cases hmove with
  | stopBegins hstop => exact absurd hstop howes
  | closeDone hstop | closeJobs hstop | wgWait hstop | tickerStop hstop
  | closeOutput hstop => simp [hstop]
  | _ => exact Iff.rfl

/-- **The dispatcher serves every job, and stops.**  From every reachable
state of a running process, when no further `Submit` or `Stop` begins, jobs
return, ticks come while the slot of the ticker is empty and the results are
received: if `Stop` was not called, every schedule ends with each accepted job
run once, all results received and no `Submit` waiting; if it was called,
every schedule ends with `Stop` and all workers returned and the results of
the jobs that ran received, or with a worker that calls nil. -/
theorem dispatcher_settles {workerCount rateLimitPerSec : Int}
    (hworkers : 1 ≤ workerCount) {s₀ : State Job}
    (hnew : newDispatcher workerCount rateLimitPerSec = .ok s₀)
    {p : State Job × List (Placed Job × String)}
    (hp : Reaches (Recording Step State.returning) (s₀, []) p)
    (halive : p.1.crashed = false) :
    (p.1.stop = .notCalled →
      Inevitable (Recording OwedStep State.returning) Served p) ∧
    (p.1.stop ≠ .notCalled →
      Inevitable (Recording OwedStep State.returning)
        (fun q => none ∈ q.1.called ∨ StoppedAtRest q) p) := by
  obtain rfl := eq_initial_of_newDispatcher hnew
  have hn : 1 ≤ workerCount.toNat := by omega
  have hinitial : SettleInvariant workerCount.toNat p :=
    hp.invariant (fun _ _ _ h hstep => h.step hstep)
      ⟨resultsInvariant_initial _, serviceInvariant_initial _⟩
  have hstuck : ∀ q : State Job × List (Placed Job × String),
      (¬ ∃ a r, Recording OwedStep State.returning q a r) → Stuck q.1 :=
    fun q hnone a t hstep => hnone ⟨a, (t, _), hstep, rfl⟩
  constructor
  · intro hstop
    refine .of_rank (fun q => q.1.rank)
      (I := fun q => SettleInvariant workerCount.toNat q ∧
        q.1.crashed = false ∧ q.1.stop = .notCalled)
      ?_ (fun _ _ _ _ hstep => rank_owedStep hstep.1) ?_
      ⟨hinitial, halive, hstop⟩
    · rintro q a r ⟨hq, -, hnone⟩ hstep
      refine ⟨hq.owedStep hstep, ?_, hstep.1.stop_iff.mpr hnone⟩
      cases hcrash : r.1.crashed with
      | false => rfl
      | true =>
          have hclosed := (hq.crashed_step hstep hcrash).2
          rw [hq.results.stop.jobsClosed_eq, hnone] at hclosed
          cases hclosed
    · rintro q ⟨hq, hcrashed, hnone⟩ hopen
      by_contra hrest
      exact hopen (hq.served hn hcrashed hnone (hstuck q hrest))
  · intro hstop
    refine .of_rank (fun q => q.1.rank)
      (I := fun q => SettleInvariant workerCount.toNat q ∧
        (q.1.crashed = true → none ∈ q.1.called) ∧ q.1.stop ≠ .notCalled)
      ?_ (fun _ _ _ _ hstep => rank_owedStep hstep.1) ?_
      ⟨hinitial, fun hcrash => absurd hcrash (by simp [halive]), hstop⟩
    · rintro q a r ⟨hq, -, hcalled⟩ hstep
      exact ⟨hq.owedStep hstep,
        fun hcrash => (hq.crashed_step hstep hcrash).1,
        mt hstep.1.stop_iff.mp hcalled⟩
    · rintro q ⟨hq, hcrash, hcalled⟩ hopen
      by_contra hrest
      cases hcrashed : q.1.crashed with
      | true => exact hopen (.inl (hcrash hcrashed))
      | false =>
          exact hopen (.inr (hq.stoppedAtRest hn hcrashed hcalled
            (hstuck q hrest)))

/-- Two jobs for one worker, and no `Stop`. -/
theorem dispatcher_settles_two :
    ∃ s : State Unit, s.placed = [(0, ())] ∧
      s.submits.map SubmitCall.pc = [.accepted, .atSelect] ∧
      Inevitable (Recording OwedStep State.returning) Served (s, []) := by
  have hnew : newDispatcher 1 1 = .ok (State.initial 1 : State Unit) := rfl
  have hfirst : Recording Step State.returning
      ((State.initial 1 : State Unit), []) (.submit ()) (_, []) :=
    ⟨⟨rfl, .submit _ ()⟩, rfl⟩
  have hsecond := ((Reaches.single hfirst).tail (a := .submitSend 0)
    (u := (_, [])) ⟨⟨rfl, .submitSend _ 0 _ rfl rfl rfl (by decide)⟩, rfl⟩).tail
    (a := .submit ()) (u := (_, [])) ⟨⟨rfl, .submit _ ()⟩, rfl⟩
  exact ⟨_, rfl, rfl,
    (dispatcher_settles (by decide) hnew hsecond rfl).1 rfl⟩

end GoPrep.Ports.Dispatcher
