import Mathlib.Data.List.Basic
import GoPrep.Verified.ThreadTable
import GoPrep.Verified.Transition

/-!
# The token-bucket dispatcher

A port of `Dispatcher` in `src/go-concurrency-practice/
worker-pool-with-rate-limiting/token-bucket-rate-limited-worker-pool.go`:
`workerCount` goroutines that take a token from one ticker, then a job from
the `jobs` channel, and send its result on the `output` channel, while any
number of callers `Submit` jobs and one caller runs `Stop`.

Channels follow Go.  A buffered channel is its buffer and a closed flag; a
receive from a closed and drained channel yields the zero value, a send on a
closed channel panics.  A `select` is one step: it may take any of its ready
cases, and a send on a closed channel counts as ready.  A goroutine parked in
a `select` and one that has not yet reached it are the same state here, since
nothing bounds the time a goroutine takes to reach its `select`.

A panic in a worker ends the process; no step leaves such a state.  A panic
in `Submit` happens on the caller's goroutine, which may recover, so the rest
of the system keeps running.
-/

namespace GoPrep.Ports.Dispatcher

open GoPrep.Verified.Transition

/-! ## Goroutines -/

/-- Where a `Submit` call stands. -/
inductive SubmitPc
  | atSelect
  /-- Returned `nil`: the job was placed. -/
  | accepted
  /-- Returned `ctx.Err()`. -/
  | ctxErr
  /-- Returned `errors.New("dispatcher stopped")`. -/
  | stopped
  | panicked
  deriving DecidableEq, Repr

/-- A `Submit` call.  `afterDone` records whether `done` was already closed
when the call began. -/
structure SubmitCall (Job : Type) where
  job : Job
  afterDone : Bool
  ctxDone : Bool
  pc : SubmitPc
  deriving DecidableEq, Repr

/-- A job in the channel, with the `Submit` call that placed it. -/
abbrev Placed (Job : Type) := Nat × Job

/-- Where a worker stands. -/
inductive WorkerPc (Job : Type)
  /-- At the outer `select`, over `done` and the ticker. -/
  | outer
  /-- Holding a token, at the inner `select`, over `done` and `jobs`. -/
  | inner
  /-- Inside `curr_job()`. -/
  | running (currJob : Placed Job)
  /-- At `d.output <- result`. -/
  | sending (result : String)
  | exited
  | panicked
  deriving DecidableEq, Repr

/-- Where the `Stop` call stands: before the statement named. -/
inductive StopPc
  | notCalled
  | closingDone
  | closingJobs
  | waiting
  | stoppingTicker
  | closingOutput
  | returned
  deriving DecidableEq, Repr

/-! ## States -/

/-- The dispatcher's channels and counters, its goroutines, and the history
of placed jobs, called values, results, receives and ticks. -/
structure State (Job : Type) where
  workerCount : Nat
  /-- `jobs`: its buffer, oldest first, and whether it is closed. -/
  jobs : List (Placed Job)
  jobsClosed : Bool
  output : List String
  outputClosed : Bool
  /-- The one-slot channel of the ticker. -/
  token : Bool
  tickerStopped : Bool
  done : Bool
  wg : Nat
  workers : List (WorkerPc Job)
  submits : List (SubmitCall Job)
  stop : StopPc
  crashed : Bool
  placed : List (Placed Job)
  /-- The values workers have called; `none` is the nil function. -/
  called : List (Option (Placed Job))
  executed : List String
  received : List String
  fired : Nat
  deriving DecidableEq, Repr

/-- The panics of `NewDispatcher`. -/
inductive NewPanic
  | integerDivideByZero
  | nonPositiveInterval
  | makeChanSize
  deriving DecidableEq, Repr

/-- `time.Second`, in nanoseconds. -/
def second : Int := 1000000000

variable {Job : Type}

/-- The dispatcher as `NewDispatcher` returns it, its workers spawned. -/
def State.initial (workerCount : Nat) : State Job :=
  { workerCount := workerCount
    jobs := []
    jobsClosed := false
    output := []
    outputClosed := false
    token := false
    tickerStopped := false
    done := false
    wg := workerCount
    workers := List.replicate workerCount .outer
    submits := []
    stop := .notCalled
    crashed := false
    placed := []
    called := []
    executed := []
    received := []
    fired := 0 }

/-- `NewDispatcher`.  `time.NewTicker` panics on an interval that is not
positive and `make` on a negative buffer size; it is taken to succeed for every
other size. -/
def newDispatcher (workerCount rateLimitPerSec : Int) :
    Except NewPanic (State Job) :=
  if rateLimitPerSec = 0 then .error .integerDivideByZero
  else if second.tdiv rateLimitPerSec ≤ 0 then .error .nonPositiveInterval
  else if workerCount < 0 then .error .makeChanSize
  else .ok (State.initial workerCount.toNat)

theorem eq_initial_of_newDispatcher {workerCount rateLimitPerSec : Int}
    {s : State Job}
    (hnew : newDispatcher workerCount rateLimitPerSec = .ok s) :
    s = State.initial workerCount.toNat := by
  unfold newDispatcher at hnew
  split at hnew
  · cases hnew
  split at hnew
  · cases hnew
  split at hnew
  · cases hnew
  · exact (Except.ok.inj hnew).symm

namespace State

/-- `Submit` call `c` moves to `pc`. -/
def submitGoto (s : State Job) (c : Nat) (call : SubmitCall Job)
    (pc : SubmitPc) : State Job :=
  { s with submits := s.submits.set c { call with pc := pc } }

/-- Worker `w` moves to `pc`. -/
def workerGoto (s : State Job) (w : Nat) (pc : WorkerPc Job) : State Job :=
  { s with workers := s.workers.set w pc }

/-- Worker `w` panics, which ends the process. -/
def workerCrash (s : State Job) (w : Nat) : State Job :=
  { s.workerGoto w .panicked with crashed := true }

/-- A `Submit` call begins. -/
def beginSubmit (s : State Job) (job : Job) : State Job :=
  { s with
    submits := s.submits ++
      [{ job := job, afterDone := s.done, ctxDone := false, pc := .atSelect }] }

/-- The send case of `Submit` on an open channel with room. -/
def place (s : State Job) (c : Nat) (call : SubmitCall Job) : State Job :=
  { s.submitGoto c call .accepted with
    jobs := s.jobs ++ [(c, call.job)]
    placed := s.placed ++ [(c, call.job)] }

/-- The receive case of the inner `select`, and the call of what it yields. -/
def take (s : State Job) (w : Nat) (currJob : Placed Job)
    (rest : List (Placed Job)) : State Job :=
  { s.workerGoto w (.running currJob) with
    jobs := rest
    called := s.called ++ [some currJob] }

end State

/-! ## Steps -/

inductive Action (Job : Type)
  | submit (job : Job)
  | ctxDone (c : Nat)
  | submitCtx (c : Nat)
  | submitStopped (c : Nat)
  | submitSend (c : Nat)
  | stop
  | tick
  | workerQuit (w : Nat)
  | workerToken (w : Nat)
  | workerReceive (w : Nat)
  | jobReturns (w : Nat) (result : String)
  | jobPanics (w : Nat)
  | workerSend (w : Nat)
  | consume
  deriving DecidableEq, Repr

/-- What a goroutine, the ticker or a context can do next. -/
inductive Move : State Job → Action Job → State Job → Prop
  | submit (s : State Job) (job : Job) :
      Move s (.submit job) (s.beginSubmit job)
  | ctxDone (s : State Job) (c : Nat) (call : SubmitCall Job) :
      s.submits[c]? = some call →
      Move s (.ctxDone c)
        { s with submits := s.submits.set c { call with ctxDone := true } }
  -- the three cases of `Submit`; the third panics on a closed channel
  | submitCtx (s : State Job) (c : Nat) (call : SubmitCall Job) :
      s.submits[c]? = some call → call.pc = .atSelect →
      call.ctxDone = true →
      Move s (.submitCtx c) (s.submitGoto c call .ctxErr)
  | submitStopped (s : State Job) (c : Nat) (call : SubmitCall Job) :
      s.submits[c]? = some call → call.pc = .atSelect → s.done = true →
      Move s (.submitStopped c) (s.submitGoto c call .stopped)
  | submitSend (s : State Job) (c : Nat) (call : SubmitCall Job) :
      s.submits[c]? = some call → call.pc = .atSelect →
      s.jobsClosed = false → s.jobs.length < s.workerCount →
      Move s (.submitSend c) (s.place c call)
  | submitSendClosed (s : State Job) (c : Nat) (call : SubmitCall Job) :
      s.submits[c]? = some call → call.pc = .atSelect →
      s.jobsClosed = true →
      Move s (.submitSend c) (s.submitGoto c call .panicked)
  -- the statements of `Stop`
  | stopBegins (s : State Job) : s.stop = .notCalled →
      Move s .stop { s with stop := .closingDone }
  | closeDone (s : State Job) : s.stop = .closingDone →
      Move s .stop { s with done := true, stop := .closingJobs }
  | closeJobs (s : State Job) : s.stop = .closingJobs →
      Move s .stop { s with jobsClosed := true, stop := .waiting }
  | wgWait (s : State Job) : s.stop = .waiting → s.wg = 0 →
      Move s .stop { s with stop := .stoppingTicker }
  | tickerStop (s : State Job) : s.stop = .stoppingTicker →
      Move s .stop { s with tickerStopped := true, stop := .closingOutput }
  | closeOutput (s : State Job) : s.stop = .closingOutput →
      Move s .stop { s with outputClosed := true, stop := .returned }
  -- a tick that finds the slot full is dropped
  | tick (s : State Job) : s.tickerStopped = false →
      Move s .tick { s with token := true, fired := s.fired + 1 }
  -- `worker`: either `select` may see `done`; the deferred `wg.Done()` runs
  | workerQuit (s : State Job) (w : Nat) (pc : WorkerPc Job) :
      s.workers[w]? = some pc → pc = .outer ∨ pc = .inner → s.done = true →
      Move s (.workerQuit w) { s.workerGoto w .exited with wg := s.wg - 1 }
  | workerToken (s : State Job) (w : Nat) :
      s.workers[w]? = some .outer → s.token = true →
      Move s (.workerToken w) { s.workerGoto w .inner with token := false }
  -- nothing but a `Println` stands between the receive and the call
  | workerReceive (s : State Job) (w : Nat) (currJob : Placed Job)
      (rest : List (Placed Job)) :
      s.workers[w]? = some .inner → s.jobs = currJob :: rest →
      Move s (.workerReceive w) (s.take w currJob rest)
  | workerReceiveClosed (s : State Job) (w : Nat) :
      s.workers[w]? = some .inner → s.jobs = [] → s.jobsClosed = true →
      Move s (.workerReceive w)
        { s.workerCrash w with called := s.called ++ [none] }
  | jobReturns (s : State Job) (w : Nat) (currJob : Placed Job)
      (result : String) :
      s.workers[w]? = some (.running currJob) →
      Move s (.jobReturns w result)
        { s.workerGoto w (.sending result) with
          executed := s.executed ++ [result] }
  | jobPanics (s : State Job) (w : Nat) (currJob : Placed Job) :
      s.workers[w]? = some (.running currJob) →
      Move s (.jobPanics w) (s.workerCrash w)
  | workerSend (s : State Job) (w : Nat) (result : String) :
      s.workers[w]? = some (.sending result) → s.outputClosed = false →
      s.output.length < s.workerCount →
      Move s (.workerSend w)
        { s.workerGoto w .outer with output := s.output ++ [result] }
  | workerSendClosed (s : State Job) (w : Nat) (result : String) :
      s.workers[w]? = some (.sending result) → s.outputClosed = true →
      Move s (.workerSend w) (s.workerCrash w)
  -- a receive from `Results()`
  | consume (s : State Job) (result : String) (rest : List String) :
      s.output = result :: rest →
      Move s .consume
        { s with output := rest, received := s.received ++ [result] }

/-- A step of the running process. -/
def Step (s : State Job) (a : Action Job) (t : State Job) : Prop :=
  s.crashed = false ∧ Move s a t

theorem Step.workerCount_eq {s t : State Job} {a : Action Job}
    (h : Step s a t) : t.workerCount = s.workerCount := by
  cases h.2 <;> rfl

theorem Step.workers_length {s t : State Job} {a : Action Job}
    (h : Step s a t) : t.workers.length = s.workers.length := by
  cases h.2 with
  | workerQuit | workerToken | workerReceive | workerReceiveClosed
  | jobReturns | jobPanics | workerSend | workerSendClosed =>
      exact List.length_set
  | _ => rfl

/-- `jobs` is never opened again. -/
theorem Step.jobsClosed {s t : State Job} {a : Action Job}
    (h : Step s a t) (hclosed : s.jobsClosed = true) :
    t.jobsClosed = true := by
  cases h.2 with
  | closeJobs _ => rfl
  | _ => exact hclosed

end GoPrep.Ports.Dispatcher
