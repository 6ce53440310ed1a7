import Mathlib.Data.List.ReduceOption
import GoPrep.Ports.DispatcherPending
import GoPrep.Ports.DispatcherSubmit

/-!
# What the workers call

The inner `select` of `worker` receives from `jobs` without the comma-ok
form.  While `jobs` is open, or closed with jobs left in its buffer, the
receive yields a placed job; from a closed and drained channel it yields nil,
which the worker then calls.  `Stop` closes `jobs` after `done`, so the
`done` case is ready too, but the `select` need not take it.  A worker that has
not returned by then can always come to that receive: the ticker runs until the
workers are gone, and the jobs that are left are called first.

## Main results

* `JobsInvariant.step` — the jobs called so far followed by the jobs still
  in the channel are the jobs placed, in order.
* `exists_calls_nil` — while `Stop` waits, a worker that remains can come to
  call nil.
* `callsPlaced_iff_exited` — along every run workers call placed jobs only,
  each at most once, if all have returned when `Stop` closes `jobs`; otherwise
  one of them can call nil.
* `worker_calls_nil` — a run in which a worker calls nil.
-/

namespace GoPrep.Ports.Dispatcher

open GoPrep.Verified.ThreadTable
open GoPrep.Verified.Transition

variable {Job : Type}

/-- The jobs among the called values. -/
def State.calledJobs (s : State Job) : List (Placed Job) :=
  s.called.reduceOption

/-- The channel hands jobs to workers in the order they were placed. -/
structure JobsInvariant (s : State Job) : Prop where
  submits : SubmitInvariant s
  fifo : s.calledJobs ++ s.jobs = s.placed

/-- Every value called is a placed job, and no job was called twice. -/
def CallsPlaced (s : State Job) : Prop :=
  (∀ v ∈ s.called, ∃ p ∈ s.placed, v = some p) ∧
    (s.calledJobs.map Prod.fst).Nodup

/-- The inner `select` does not receive from the closed and drained
channel. -/
def ReceivesJobs (s : State Job) : Action Job → Prop
  | .workerReceive _ => ¬ (s.jobsClosed = true ∧ s.jobs = [])
  | _ => True

theorem jobsInvariant_initial (workerCount : Nat) :
    JobsInvariant (State.initial workerCount : State Job) where
  submits := submitInvariant_initial workerCount
  fifo := rfl

theorem callsPlaced_initial (workerCount : Nat) :
    CallsPlaced (State.initial workerCount : State Job) := by
  simp [CallsPlaced, State.calledJobs, State.initial]

namespace JobsInvariant

variable {s : State Job}

/-- **Every step preserves the order of the jobs.** -/
theorem step (h : JobsInvariant s) {a : Action Job} {t : State Job}
    (hstep : Step s a t) : JobsInvariant t := by
  refine ⟨h.submits.step hstep, ?_⟩
  cases hstep.2 with
  | submitSend c call _ _ _ _ =>
      show s.calledJobs ++ (s.jobs ++ [(c, call.job)]) =
        s.placed ++ [(c, call.job)]
      rw [← List.append_assoc, h.fifo]
  | workerReceive w currJob rest _ hjobs =>
      show (s.called ++ [some currJob]).reduceOption ++ rest = s.placed
      rw [List.reduceOption_append, List.append_assoc, ← h.fifo, hjobs]
      rfl
  | workerReceiveClosed w _ hjobs _ =>
      show (s.called ++ [none]).reduceOption ++ s.jobs = s.placed
      rw [List.reduceOption_append, List.append_assoc, ← h.fifo]
      rfl
  | _ => exact h.fifo

theorem mem_placed_of_mem_calledJobs (h : JobsInvariant s) {p : Placed Job}
    (hp : p ∈ s.calledJobs) : p ∈ s.placed := by
  rw [← h.fifo]
  exact List.mem_append_left _ hp

/-- No `Submit` places twice, so no job is called twice. -/
theorem calledJobs_nodup (h : JobsInvariant s) :
    (s.calledJobs.map Prod.fst).Nodup := by
  have hplaced := h.submits.placed.nodup
  rw [← h.fifo, List.map_append] at hplaced
  exact hplaced.of_append_left

/-- A state is as wanted exactly when nil was never called. -/
theorem callsPlaced_iff (h : JobsInvariant s) :
    CallsPlaced s ↔ none ∉ s.called := by
  constructor
  · rintro ⟨hcalled, -⟩ hnil
    obtain ⟨p, -, hp⟩ := hcalled none hnil
    cases hp
  · intro hnil
    refine ⟨fun v hv => ?_, h.calledJobs_nodup⟩
    cases v with
    | none => exact absurd hv hnil
    | some p =>
        exact ⟨p, h.mem_placed_of_mem_calledJobs
          (List.reduceOption_mem_iff.mpr hv), rfl⟩

/-- **A step from a good state is good exactly when it does not receive from
the closed and drained channel.** -/
theorem callsPlaced_step_iff (h : JobsInvariant s) (hs : CallsPlaced s)
    {a : Action Job} {t : State Job} (hstep : Step s a t) :
    CallsPlaced t ↔ ReceivesJobs s a := by
  have hnil := h.callsPlaced_iff.mp hs
  rw [(h.step hstep).callsPlaced_iff]
  cases hstep.2 with
  | workerReceive w currJob rest _ hjobs =>
      refine iff_of_true (fun hmem => ?_) (by simp [ReceivesJobs, hjobs])
      rcases List.mem_append.mp hmem with hmem | hmem
      · exact hnil hmem
      · simp at hmem
  | workerReceiveClosed w _ hjobs hclosed =>
      refine iff_of_false (fun hmem => hmem ?_)
        (by simp [ReceivesJobs, hjobs, hclosed])
      exact List.mem_append_right _ (List.mem_singleton.mpr rfl)
  | _ => exact iff_of_true hnil trivial

end JobsInvariant

/-- The jobs called are placed jobs, none of them called twice, in every
reachable state. -/
theorem calledJobs_placed {workerCount : Nat} {s : State Job}
    (hs : Reaches Step (State.initial workerCount) s) :
    (s.calledJobs.map Prod.fst).Nodup ∧ ∀ p ∈ s.calledJobs, p ∈ s.placed := by
  have hinv := hs.invariant (fun _ _ _ h hstep => JobsInvariant.step h hstep)
    (jobsInvariant_initial _)
  exact ⟨hinv.calledJobs_nodup, fun _ => hinv.mem_placed_of_mem_calledJobs⟩

/-- While `jobs` is open nil is not called. -/
theorem callsPlaced_of_open {workerCount : Nat} {s : State Job}
    (hs : Reaches Step (State.initial workerCount) s)
    (hopen : s.jobsClosed = false) : CallsPlaced s := by
  have hinv := hs.invariant
    (I := fun s => JobsInvariant s ∧ (s.jobsClosed = false → CallsPlaced s))
    (fun s a t h hstep => ?_)
    ⟨jobsInvariant_initial _, fun _ => callsPlaced_initial _⟩
  · exact hinv.2 hopen
  · refine ⟨h.1.step hstep, fun hafter => ?_⟩
    have hbefore : s.jobsClosed = false := by
      cases hclosed : s.jobsClosed with
      | false => rfl
      | true => rw [hstep.jobsClosed hclosed] at hafter; cases hafter
    rw [h.1.callsPlaced_step_iff (h.2 hbefore) hstep]
    cases a with
    | workerReceive w => exact fun hdrained => by simp [hbefore] at hdrained
    | _ => trivial

/-! ## When all workers have returned -/

/-- When `Stop` closes `jobs`, every worker has returned. -/
def ClosesWhenExited (s : State Job) : Action Job → Prop
  | .stop => s.stop = .closingJobs → ∀ pc ∈ s.workers, pc.remains = false
  | _ => True

/-- Placed jobs have been called, and once `jobs` is closed nobody is left to
receive from it. -/
structure ExitedInvariant (s : State Job) : Prop where
  jobs : JobsInvariant s
  calls : CallsPlaced s
  exited : s.jobsClosed = true → ∀ pc ∈ s.workers, pc.remains = false

namespace ExitedInvariant

variable {s t : State Job} {a : Action Job}

/-- Nobody receives from the closed and drained channel. -/
theorem receivesJobs (h : ExitedInvariant s) (hstep : Step s a t) :
    ReceivesJobs s a := by
  cases hstep.2 with
  | workerReceive w currJob rest _ hjobs => simp [ReceivesJobs, hjobs]
  | workerReceiveClosed w hw _ hclosed =>
      cases h.exited hclosed _ (List.mem_of_getElem? hw)
  | _ => trivial

/-- **A step after which no worker is left with `jobs` closed.** -/
theorem step (h : ExitedInvariant s) (hC : ClosesWhenExited s a)
    (hstep : Step s a t) : ExitedInvariant t where
  jobs := h.jobs.step hstep
  calls := (h.jobs.callsPlaced_step_iff h.calls hstep).mpr
    (h.receivesJobs hstep)
  exited := by
    intro hclosed
    cases hbefore : s.jobsClosed with
    | true => exact exited_step hstep (h.exited hbefore)
    | false =>
        cases hstep.2 with
        | closeJobs hstop => exact hC hstop
        | _ => exact absurd (hbefore.symm.trans hclosed) (by simp)

/-- After that it is out of `Stop`'s hands. -/
theorem step_of_closed (h : ExitedInvariant s) (hclosed : s.jobsClosed = true)
    (hstep : Step s a t) : ExitedInvariant t ∧ t.jobsClosed = true := by
  refine ⟨h.step ?_ hstep, hstep.jobsClosed hclosed⟩
  cases a with
  | stop => exact fun _ => h.exited hclosed
  | _ => trivial

end ExitedInvariant

/-- From where `Stop` closes `jobs` with all workers gone nil is never
called. -/
theorem callsPlaced_of_exited {workerCount : Nat} {s t u : State Job}
    (hs : Reaches Step (State.initial workerCount) s)
    (hstop : s.stop = .closingJobs)
    (hall : ∀ pc ∈ s.workers, pc.remains = false) (ht : Step s .stop t)
    (hu : Reaches Step t u) : CallsPlaced u := by
  have hinv := hs.invariant (fun _ _ _ h hstep => JobsInvariant.step h hstep)
    (jobsInvariant_initial _)
  have hopen : s.jobsClosed = false := by
    rw [(hs.invariant (fun _ _ _ h hstep => StopInvariant.step h hstep)
      (stopInvariant_initial _)).jobsClosed_eq, hstop]
    rfl
  have hexited : ExitedInvariant s :=
    ⟨hinv, callsPlaced_of_open hs hopen, fun _ => hall⟩
  have hclosed : t.jobsClosed = true := by
    cases ht.2 with
    | closeJobs _ => rfl
    | stopBegins hpc | closeDone hpc | wgWait hpc _ | tickerStop hpc
    | closeOutput hpc => simp [hstop] at hpc
  have hafter := hu.invariant
    (I := fun u => ExitedInvariant u ∧ u.jobsClosed = true)
    (fun _ _ _ h hstep => h.1.step_of_closed h.2 hstep)
    ⟨hexited.step (a := .stop) (fun _ => hall) ht, hclosed⟩
  exact hafter.1.calls

/-! ## When one is left -/

/-- Some steps lead to where a worker remains, with less to do. -/
def CanGoOn (s : State Job) : Prop :=
  ∃ t, Reaches Step s t ∧ Waits t ∧ t.weight < s.weight ∧
    t.workerCount = s.workerCount ∧ ∃ pc ∈ t.workers, pc.remains = true

theorem Advances.canGoOn {s t : State Job} (h : Advances s t) :
    CanGoOn s := by
  obtain ⟨a, hstep⟩ := h.step
  exact ⟨t, .single hstep, h.waits, h.weight, hstep.workerCount_eq, h.remains⟩

/-- A worker that waits at its send goes on once a result is received. -/
theorem canGoOn_of_sending {s : State Job} (h : Waits s)
    (hpos : 0 < s.workerCount) {w : Nat} {result : String}
    (hw : s.workers[w]? = some (.sending result)) : CanGoOn s := by
  by_cases hroom : s.output.length < s.workerCount
  · obtain ⟨t, ht⟩ := h.advances_midJob hw rfl fun _ => hroom
    exact ht.canGoOn
  · have hlen := h.invariant.output_le
    obtain ⟨first, rest, houtput⟩ : ∃ first rest, s.output = first :: rest :=
      List.exists_cons_of_length_pos (by omega)
    have hconsume : Step s .consume
        { s with output := rest, received := s.received ++ [first] } :=
      ⟨h.crashed, .consume s first rest houtput⟩
    have hroom' : rest.length < s.workerCount := by
      rw [houtput, List.length_cons] at hlen
      omega
    have hwaits : Waits
        { s with output := rest, received := s.received ++ [first] } :=
      ⟨h.invariant.step hconsume, h.stop, h.crashed⟩
    obtain ⟨t, ht⟩ := hwaits.advances_midJob hw rfl fun _ => hroom'
    obtain ⟨u, hu, hrest⟩ := ht.canGoOn
    exact ⟨u, hu.head hconsume, hrest⟩

/-- A worker that remains calls nil, or goes on. -/
theorem calls_nil_or_canGoOn {s : State Job} (h : Waits s)
    (hpos : 0 < s.workerCount)
    (hremains : ∃ pc ∈ s.workers, pc.remains = true) :
    (∃ a u, Step s a u ∧ none ∈ u.called) ∨ CanGoOn s := by
  obtain ⟨pc, hpc, hremains⟩ := hremains
  obtain ⟨w, hw⟩ := List.mem_iff_getElem?.mp hpc
  rcases h.pc_cases hpc with ⟨currJob, rfl⟩ | ⟨result, rfl⟩ |
    (rfl | rfl) | rfl
  · obtain ⟨t, ht⟩ := h.advances_midJob hw rfl nofun
    exact .inr ht.canGoOn
  · exact .inr (canGoOn_of_sending h hpos hw)
  · obtain ⟨t, ht⟩ := h.advances_outer hw
    exact .inr ht.canGoOn
  · by_cases hjobs : s.jobs = []
    · refine .inl ⟨_, _,
        ⟨h.crashed, .workerReceiveClosed s w hw hjobs h.jobsClosed⟩, ?_⟩
      exact List.mem_append_right _ (List.mem_singleton.mpr rfl)
    · obtain ⟨t, ht⟩ := h.advances_inner hw hjobs
      exact .inr ht.canGoOn
  · cases hremains

/-- **While `Stop` waits, a worker that remains can come to call nil.** -/
theorem exists_calls_nil {s : State Job} (h : Waits s)
    (hpos : 0 < s.workerCount)
    (hremains : ∃ pc ∈ s.workers, pc.remains = true) :
    ∃ u, Reaches Step s u ∧ none ∈ u.called := by
  induction hweight : s.weight using Nat.strongRecOn generalizing s with
  | ind n ih =>
  rcases calls_nil_or_canGoOn h hpos hremains with ⟨a, u, hstep, hnil⟩ | hgoes
  · exact ⟨u, .single hstep, hnil⟩
  · obtain ⟨t, ht, hwaits, hlt, hcount, hleft⟩ := hgoes
    obtain ⟨u, hu, hnil⟩ :=
      ih t.weight (hweight ▸ hlt) hwaits (hcount ▸ hpos) hleft rfl
    exact ⟨u, ht.trans hu, hnil⟩

/-- There are as many workers as `NewDispatcher` was asked for. -/
theorem workers_length_eq {workerCount : Nat} {s : State Job}
    (hs : Reaches Step (State.initial workerCount) s) :
    s.workers.length = s.workerCount := by
  refine hs.invariant (I := fun s => s.workers.length = s.workerCount)
    (fun _ _ _ h hstep => ?_) List.length_replicate
  rw [hstep.workers_length, hstep.workerCount_eq, h]

/-- From where `Stop` closes `jobs` too early nil can be called. -/
theorem exists_not_callsPlaced {workerCount : Nat} {s : State Job}
    (hs : Reaches Step (State.initial workerCount) s)
    (hstop : s.stop = .closingJobs) (hcrashed : s.crashed = false)
    (hremains : ∃ pc ∈ s.workers, pc.remains = true) :
    ∃ t u, Step s .stop t ∧ Reaches Step t u ∧ ¬ CallsPlaced u := by
  have hcloses : Step s .stop
      { s with jobsClosed := true, stop := .waiting } :=
    ⟨hcrashed, .closeJobs s hstop⟩
  have hwaits : Waits { s with jobsClosed := true, stop := .waiting } :=
    ⟨(hs.invariant (fun _ _ _ h hstep => StopInvariant.step h hstep)
      (stopInvariant_initial _)).step hcloses, rfl, hcrashed⟩
  have hpos : 0 < s.workerCount := by
    obtain ⟨pc, hpc, -⟩ := hremains
    rw [← workers_length_eq hs]
    exact List.length_pos_of_mem hpc
  obtain ⟨u, hu, hnil⟩ := exists_calls_nil hwaits hpos hremains
  refine ⟨_, u, hcloses, hu, fun hcalls => ?_⟩
  obtain ⟨p, -, hp⟩ := hcalls.1 none hnil
  cases hp

/-- **When the workers run submitted jobs only.**  Along every run of every
dispatcher in which, whenever `Stop` closes `jobs`, all workers have returned,
every value a worker calls is a job some `Submit` placed and no job is called
twice.  From a reachable state in which `Stop` is about to close `jobs` and a
worker remains, one can call nil.  Whatever else they call, the jobs that
workers call are placed ones, and each is called at most once. -/
theorem callsPlaced_iff_exited {workerCount rateLimitPerSec : Int}
    {s₀ : State Job}
    (hnew : newDispatcher workerCount rateLimitPerSec = .ok s₀) :
    (∀ run, IsRun Step s₀ run → StepsAll ClosesWhenExited s₀ run →
      StatesAll CallsPlaced run) ∧
    (∀ s, Reaches Step s₀ s → s.stop = .closingJobs → s.crashed = false →
      ((∀ t u, Step s .stop t → Reaches Step t u → CallsPlaced u) ↔
        ∀ pc ∈ s.workers, pc.remains = false)) ∧
    ∀ s, Reaches Step s₀ s → (s.calledJobs.map Prod.fst).Nodup ∧
      ∀ p ∈ s.calledJobs, p ∈ s.placed := by
  obtain rfl := eq_initial_of_newDispatcher hnew
  refine ⟨?_, ?_, fun s hs => calledJobs_placed hs⟩
  · intro run hrun hC entry hentry
    have hinitial :
        ExitedInvariant (State.initial workerCount.toNat : State Job) :=
      ⟨jobsInvariant_initial _, callsPlaced_initial _,
        fun hclosed => Bool.noConfusion hclosed⟩
    exact (statesAll_of_stepsAll (fun _ _ _ h hC hstep => h.step hC hstep)
      hrun hinitial hC entry hentry).calls
  · intro s hs hstop hcrashed
    constructor
    · intro hcalls pc hpc
      cases hremains : pc.remains with
      | false => rfl
      | true =>
          obtain ⟨t, u, ht, hu, hnot⟩ :=
            exists_not_callsPlaced hs hstop hcrashed ⟨pc, hpc, hremains⟩
          exact absurd (hcalls t u ht hu) hnot
    · intro hall t u ht hu
      exact callsPlaced_of_exited hs hstop hall ht hu

/-- The worker runs the one job placed, sends its result and returns, and
then `Stop` closes `jobs`. -/
theorem callsPlaced_iff_exited_one :
    ∃ run : List (Action Unit × State Unit),
      IsRun Step (State.initial 1) run ∧
      run.map Prod.fst = [.submit (), .submitSend 0, .tick, .workerToken 0,
        .workerReceive 0, .jobReturns 0 "done", .workerSend 0, .stop, .stop,
        .workerQuit 0, .stop] ∧
      StatesAll CallsPlaced run := by
  have hrun : IsRun (α := Action Unit) Step (State.initial 1)
      [(_, _), (_, _), (_, _), (_, _), (_, _), (_, _), (_, _), (_, _),
        (_, _), (_, _), (_, _)] :=
    ⟨⟨rfl, .submit _ ()⟩, ⟨rfl, .submitSend _ 0 _ rfl rfl rfl (by decide)⟩,
      ⟨rfl, .tick _ rfl⟩, ⟨rfl, .workerToken _ 0 rfl rfl⟩,
      ⟨rfl, .workerReceive _ 0 (0, ()) [] rfl rfl⟩,
      ⟨rfl, .jobReturns _ 0 _ "done" rfl⟩,
      ⟨rfl, .workerSend _ 0 _ rfl rfl (by decide)⟩,
      ⟨rfl, .stopBegins _ rfl⟩, ⟨rfl, .closeDone _ rfl⟩,
      ⟨rfl, .workerQuit _ 0 _ rfl (.inl rfl) rfl⟩,
      ⟨rfl, .closeJobs _ rfl⟩, trivial⟩
  have hnew : newDispatcher 1 1 = .ok (State.initial 1 : State Unit) := rfl
  refine ⟨_, hrun, rfl, (callsPlaced_iff_exited hnew).1 _ hrun ?_⟩
  refine ⟨trivial, trivial, trivial, trivial, trivial, trivial, trivial,
    fun hpc => ?_, fun hpc => ?_, trivial, fun _ => by decide, trivial⟩
  · cases hpc
  · cases hpc

/-- **A worker may call nil.**  The worker holds a token when `Stop` closes
both channels, and its `select` takes the receive. -/
theorem worker_calls_nil :
    ∃ s t : State Unit, newDispatcher 1 1 = .ok s ∧ Reaches Step s t ∧
      ¬ CallsPlaced t ∧ t.placed = [] ∧ t.called = [none] ∧
      t.crashed = true := by
  have htick : Step (State.initial 1 : State Unit) .tick _ :=
    ⟨rfl, .tick _ rfl⟩
  have htoken := (Reaches.single htick).tail ⟨rfl, .workerToken _ 0 rfl rfl⟩
  have hclosed := ((htoken.tail ⟨rfl, .stopBegins _ rfl⟩).tail
    ⟨rfl, .closeDone _ rfl⟩).tail ⟨rfl, .closeJobs _ rfl⟩
  refine ⟨_, _, rfl, hclosed.tail
    ⟨rfl, .workerReceiveClosed _ 0 rfl rfl rfl⟩, ?_, rfl, rfl, rfl⟩
  rintro ⟨hcalled, -⟩
  obtain ⟨p, hp, -⟩ := hcalled none (List.mem_singleton.mpr rfl)
  cases hp

end GoPrep.Ports.Dispatcher
