import GoPrep.Ports.DispatcherStop
import GoPrep.Ports.DispatcherWorkers

/-!
# The stream of results

Workers send results on one bounded channel, and `Stop` closes it once the
wait group is down to zero.  A record kept along the run says which job each
executed result comes from.

## Main results

* `ResultsInvariant.step` — results are received, buffered or held by a worker
  at its send, and each comes from a job of its own.
* `results_exact` — in every reachable state, with every record of the run to
  it.
-/

namespace GoPrep.Ports.Dispatcher

open GoPrep.Verified.ThreadTable
open GoPrep.Verified.Transition
open scoped List

variable {Job : Type}

/-! ## What the run produces -/

/-- The job that returns in a step, with its result. -/
def State.returning (s : State Job) : Action Job → List (Placed Job × String)
  | .jobReturns w result =>
      match s.workers[w]? with
      | some (.running currJob) => [(currJob, result)]
      | _ => []
  | _ => []

/-- The result of a worker that has run a job but not sent yet. -/
def WorkerPc.held : WorkerPc Job → Option String
  | .sending result => some result
  | _ => none

/-- The job of a worker inside its call. -/
def WorkerPc.currJob : WorkerPc Job → Option (Placed Job)
  | .running currJob => some currJob
  | _ => none

/-- `Stop` is past its `wg.Wait()`. -/
def StopPc.joined : StopPc → Bool
  | .stoppingTicker => true
  | .closingOutput => true
  | .returned => true
  | _ => false

/-- The jobs that have returned `results` or are being called. -/
def State.started (s : State Job) (results : List (Placed Job × String)) :
    List (Placed Job) :=
  results.map Prod.fst ++ s.workers.filterMap WorkerPc.currJob

structure ResultsInvariant (p : State Job × List (Placed Job × String)) :
    Prop where
  stop : StopInvariant p.1
  jobs : JobsInvariant p.1
  joined : p.1.stop.joined = true → p.1.wg = 0
  executed : p.1.executed = p.2.map Prod.snd
  started : p.1.started p.2 <+~ p.1.calledJobs
  held : (p.1.received ++ p.1.output ++
    p.1.workers.filterMap WorkerPc.held).Perm p.1.executed

theorem resultsInvariant_initial (workerCount : Nat) :
    ResultsInvariant ((State.initial workerCount : State Job), []) where
  stop := stopInvariant_initial workerCount
  jobs := jobsInvariant_initial workerCount
  joined := fun h => Bool.noConfusion h
  executed := rfl
  started := by
    simp [State.started, State.initial, WorkerPc.currJob,
      List.filterMap_replicate]
  held := by
    simp [State.initial, WorkerPc.held, List.filterMap_replicate]

namespace ResultsInvariant

variable {s t : State Job} {results : List (Placed Job × String)}
  {a : Action Job}

/-- `output` is closed after the last worker has exited. -/
theorem exited_of_outputClosed (h : ResultsInvariant (s, results))
    (hclosed : s.outputClosed = true) {pc : WorkerPc Job}
    (hpc : pc ∈ s.workers) : pc = .exited := by
  have hjoined : s.stop.joined = true := by
    rw [h.stop.outputClosed hclosed]
    rfl
  have hnone : ¬ ∃ pc ∈ s.workers, pc.remains = true := fun hremains =>
    h.stop.wg_ne_zero.mpr hremains (h.joined hjoined)
  cases pc with
  | exited => rfl
  | _ => exact absurd ⟨_, hpc, rfl⟩ hnone

/-- A worker at its send finds `output` open. -/
theorem outputClosed_of_sending (h : ResultsInvariant (s, results)) {w : Nat}
    {result : String} (hw : s.workers[w]? = some (.sending result)) :
    s.outputClosed = false := by
  cases hclosed : s.outputClosed with
  | false => rfl
  | true =>
      cases h.exited_of_outputClosed hclosed (List.mem_of_getElem? hw)

theorem joined_step (h : ResultsInvariant (s, results)) (hmove : Move s a t) :
    t.stop.joined = true → t.wg = 0 := by
  have hbefore := h.joined
  cases hmove with
  | stopBegins | closeDone | closeJobs => exact fun hj => Bool.noConfusion hj
  | wgWait _ hzero => exact fun _ => hzero
  | tickerStop hstop | closeOutput hstop =>
      rw [hstop] at hbefore
      exact fun _ => hbefore rfl
  | workerQuit =>
      intro hj
      show s.wg - 1 = 0
      rw [hbefore hj]
  | _ => exact hbefore

theorem executed_step (h : ResultsInvariant (s, results))
    (hmove : Move s a t) :
    t.executed = (results ++ s.returning a).map Prod.snd := by
  rw [List.map_append, ← h.executed]
  cases hmove with
  | jobReturns w currJob result hw =>
      simp only [State.returning, hw, List.map_singleton]
  | _ => exact (List.append_nil _).symm

/-- A job starts with its receive, and may end by panicking. -/
theorem started_other (h : ResultsInvariant (s, results))
    (hmove : Move s a t) (hother : ∀ w result, a ≠ .jobReturns w result) :
    t.started results <+~ t.calledJobs := by
  have hstarted : results.map Prod.fst ++
      s.workers.filterMap WorkerPc.currJob <+~ s.calledJobs := h.started
  have hsame : ∀ {w : Nat} {old new : WorkerPc Job},
      s.workers[w]? = some old → new.currJob = old.currJob →
      results.map Prod.fst ++
        (s.workers.set w new).filterMap WorkerPc.currJob <+~
        s.calledJobs := by
    intro w old new hw hjob
    rw [filterMap_congr_map (map_set_of_eq _ hw hjob)]
    exact hstarted
  cases hmove with
  | workerQuit w pc hw hpc _ =>
      exact hsame hw (by rcases hpc with rfl | rfl <;> rfl)
  | workerToken w hw _ => exact hsame hw rfl
  | workerSend w result hw _ _ => exact hsame hw rfl
  | workerSendClosed w result hw _ => exact hsame hw rfl
  | workerReceiveClosed w hw _ _ =>
      show _ <+~ (s.called ++ [none]).reduceOption
      rw [List.reduceOption_append]
      have hjob : (WorkerPc.panicked : WorkerPc Job).currJob = none := rfl
      exact (hsame hw hjob).trans (List.sublist_append_left _ _).subperm
  | workerReceive w currJob rest hw _ =>
      have hjob := filterMap_set_perm WorkerPc.currJob hw (.running currJob)
      show results.map Prod.fst ++ (s.workers.set w _).filterMap _ <+~
        (s.called ++ [some currJob]).reduceOption
      rw [List.reduceOption_append]
      have hmoved := (hjob.append_left (results.map Prod.fst)).trans
        (List.perm_append_comm_assoc _ [currJob] _)
      exact hmoved.subperm.trans
        (((List.subperm_append_left [currJob]).mpr hstarted).trans
          List.perm_append_comm.subperm)
  | jobReturns w currJob result hw => exact absurd rfl (hother w result)
  | jobPanics w currJob hw =>
      have hjob := filterMap_set_perm WorkerPc.currJob hw .panicked
      have hfewer := (List.sublist_append_right [currJob] _).subperm.trans
        hjob.subperm
      exact ((List.subperm_append_left _).mpr hfewer).trans hstarted
  | _ => exact hstarted

theorem started_step (h : ResultsInvariant (s, results))
    (hmove : Move s a t) :
    t.started (results ++ s.returning a) <+~ t.calledJobs := by
  cases a with
  | jobReturns w result =>
      cases hmove with
      | jobReturns _ currJob _ hw =>
          have hjob := filterMap_set_perm WorkerPc.currJob hw
            (.sending result)
          simp only [State.returning, hw, State.started, List.map_append,
            List.append_assoc]
          exact (hjob.append_left _).subperm.trans h.started
  | _ =>
      show t.started (results ++ []) <+~ t.calledJobs
      rw [List.append_nil]
      exact h.started_other hmove (fun _ _ heq => by cases heq)

/-- A result is held from the return of its job to its send. -/
theorem held_step (h : ResultsInvariant (s, results)) (hmove : Move s a t) :
    (t.received ++ t.output ++ t.workers.filterMap WorkerPc.held).Perm
      t.executed := by
  have hheld : (s.received ++ s.output ++
      s.workers.filterMap WorkerPc.held).Perm s.executed := h.held
  have hsame : ∀ {w : Nat} {old new : WorkerPc Job},
      s.workers[w]? = some old → new.held = old.held →
      (s.received ++ s.output ++
        (s.workers.set w new).filterMap WorkerPc.held).Perm s.executed := by
    intro w old new hw hresult
    rw [filterMap_congr_map (map_set_of_eq _ hw hresult)]
    exact hheld
  cases hmove with
  | workerQuit w pc hw hpc _ =>
      exact hsame hw (by rcases hpc with rfl | rfl <;> rfl)
  | workerToken w hw _ => exact hsame hw rfl
  | workerReceive w currJob rest hw _ => exact hsame hw rfl
  | workerReceiveClosed w hw _ _ => exact hsame hw rfl
  | jobPanics w currJob hw => exact hsame hw rfl
  | jobReturns w currJob result hw =>
      have hresult := filterMap_set_perm WorkerPc.held hw (.sending result)
      calc (s.received ++ s.output ++
            (s.workers.set w (.sending result)).filterMap WorkerPc.held)
          ~ s.received ++ s.output ++ ([result] ++
            s.workers.filterMap WorkerPc.held) := hresult.append_left _
        _ ~ [result] ++ (s.received ++ s.output ++
            s.workers.filterMap WorkerPc.held) :=
            List.perm_append_comm_assoc _ _ _
        _ ~ [result] ++ s.executed := hheld.append_left _
        _ ~ s.executed ++ [result] := List.perm_append_comm
  | workerSend w result hw _ _ =>
      have hresult := filterMap_set_perm WorkerPc.held hw .outer
      show (s.received ++ (s.output ++ [result]) ++
        (s.workers.set w .outer).filterMap WorkerPc.held).Perm s.executed
      rw [← List.append_assoc, List.append_assoc _ [result]]
      exact (hresult.append_left _).trans hheld
  | workerSendClosed w result hw hclosed =>
      rw [h.outputClosed_of_sending hw] at hclosed
      cases hclosed
  | consume result rest houtput =>
      rw [houtput] at hheld
      show (s.received ++ [result] ++ rest ++ _).Perm s.executed
      rwa [List.append_assoc s.received]
  | _ => exact hheld

/-- **Every step preserves the invariant.** -/
theorem step {p q : State Job × List (Placed Job × String)}
    (h : ResultsInvariant p) (hstep : Recording Step State.returning p a q) :
    ResultsInvariant q := by
  obtain ⟨s, results⟩ := p
  obtain ⟨t, results'⟩ := q
  obtain ⟨hmove, rfl⟩ := hstep
  exact ⟨h.stop.step hmove, h.jobs.step hmove, h.joined_step hmove.2,
    h.executed_step hmove.2, h.started_step hmove.2, h.held_step hmove.2⟩

/-- Results come from different jobs, which were placed. -/
theorem once (h : ResultsInvariant (s, results)) :
    (results.map fun entry => entry.1.1).Nodup ∧
      ∀ entry ∈ results, entry.1 ∈ s.placed := by
  have hsub : results.map Prod.fst <+~ s.calledJobs :=
    (List.sublist_append_left _ _).subperm.trans h.started
  constructor
  · obtain ⟨jobs, hperm, hsublist⟩ := hsub
    have hnodup := h.jobs.calledJobs_nodup.sublist (hsublist.map Prod.fst)
    have hids := hperm.map Prod.fst
    rw [List.map_map] at hids
    exact hids.nodup_iff.mp hnodup
  · intro entry hentry
    exact h.jobs.mem_placed_of_mem_calledJobs
      (hsub.subset (List.mem_map_of_mem hentry))

end ResultsInvariant

/-- What is known of the results of a run, with the job of each. -/
structure ResultsExact (s : State Job)
    (results : List (Placed Job × String)) : Prop where
  executed : s.executed = results.map Prod.snd
  /-- Each accepted job has at most one result. -/
  once : (results.map fun entry => entry.1.1).Nodup
  accepted : ∀ entry ∈ results, entry.1 ∈ s.placed
  exact : (s.received ++ s.output ++
    s.workers.filterMap WorkerPc.held).Perm s.executed
  exited : s.outputClosed = true → ∀ pc ∈ s.workers, pc = .exited
  sendsOpen : ∀ (w : Nat) (t : State Job), Step s (.workerSend w) t →
    s.outputClosed = false
  /-- The range over `Results()` ends. -/
  drained : s.outputClosed = true → s.output = [] →
    s.received.Perm s.executed

/-- **The stream of results is exact and closed safely.**  In every state
reachable by any interleaving, up to the first panic of a job call: received,
buffered and held results are the results of the jobs executed so far, each of
a different accepted job; `output` is closed only when every worker has
exited, no worker sends on it closed, and once it is closed and drained every
result has been received. -/
theorem results_exact {workerCount rateLimitPerSec : Int} {s : State Job}
    (hnew : newDispatcher workerCount rateLimitPerSec = .ok s) {t : State Job}
    (ht : Reaches Step s t) :
    (∃ results,
      Reaches (Recording Step State.returning) (s, []) (t, results)) ∧
    ∀ results, Reaches (Recording Step State.returning) (s, []) (t, results) →
      ResultsExact t results := by
  obtain rfl := eq_initial_of_newDispatcher hnew
  refine ⟨ht.recording State.returning [], fun results hresults => ?_⟩
  have hinv := hresults.invariant (fun _ _ _ h hstep => h.step hstep)
    (resultsInvariant_initial workerCount.toNat)
  refine ⟨hinv.executed, hinv.once.1, hinv.once.2, hinv.held,
    fun hclosed pc hpc => hinv.exited_of_outputClosed hclosed hpc, ?_, ?_⟩
  · rintro w u ⟨-, hmove⟩
    cases hmove with
    | workerSend _ _ _ hopen _ => exact hopen
    | workerSendClosed _ _ hw _ => exact hinv.outputClosed_of_sending hw
  · intro hclosed hempty
    have hnone : t.workers.filterMap WorkerPc.held = [] := by
      rw [List.filterMap_eq_nil_iff]
      intro pc hpc
      rw [hinv.exited_of_outputClosed hclosed hpc]
      rfl
    have hheld := hinv.held
    rw [hempty, hnone, List.append_nil, List.append_nil] at hheld
    exact hheld

/-- One job, whose result waits in `output` until `Stop` has returned. -/
theorem results_exact_drained :
    ∃ (t : State Unit) (results : List (Placed Unit × String)),
      Reaches (Recording Step State.returning) (State.initial 1, [])
        (t, results) ∧
      ResultsExact t results ∧ results.map Prod.snd = ["ok"] ∧
      t.stop = .returned ∧ t.received = ["ok"] := by
  have hsubmit : Step (State.initial 1 : State Unit) (.submit ()) _ :=
    ⟨rfl, .submit _ ()⟩
  have hcalled := ((((Reaches.single hsubmit).tail
    ⟨rfl, .submitSend _ 0 _ rfl rfl rfl (by decide)⟩).tail
    ⟨rfl, .tick _ rfl⟩).tail
    ⟨rfl, .workerToken _ 0 rfl rfl⟩).tail
    ⟨rfl, .workerReceive _ 0 (0, ()) [] rfl rfl⟩
  have hsent := (hcalled.tail
    ⟨rfl, .jobReturns _ 0 (0, ()) "ok" rfl⟩).tail
    ⟨rfl, .workerSend _ 0 "ok" rfl rfl (by decide)⟩
  have hjoined := ((((hsent.tail ⟨rfl, .stopBegins _ rfl⟩).tail
    ⟨rfl, .closeDone _ rfl⟩).tail ⟨rfl, .closeJobs _ rfl⟩).tail
    ⟨rfl, .workerQuit _ 0 .outer rfl (.inl rfl) rfl⟩).tail
    ⟨rfl, .wgWait _ rfl rfl⟩
  have hdrained := ((hjoined.tail ⟨rfl, .tickerStop _ rfl⟩).tail
    ⟨rfl, .closeOutput _ rfl⟩).tail ⟨rfl, .consume _ "ok" [] rfl⟩
  have hnew : newDispatcher 1 1 = .ok (State.initial 1 : State Unit) := rfl
  obtain ⟨⟨results, hresults⟩, hexact⟩ := results_exact hnew hdrained
  have hall := hexact results hresults
  exact ⟨_, results, hresults, hall, hall.executed.symm, rfl, rfl⟩

end GoPrep.Ports.Dispatcher
