import GoPrep.Verified.Inevitable

/-!
# Graceful shutdown

A port of `src/go-concurrency-practice/graceful-shutdown-with-context/
main.go`: a worker that prints at every tick until the context is cancelled
and then cleans up, and a `main` that catches the interrupt and waits for it.

From `signal.NotifyContext` to `stop` an interrupt cancels the context, and
otherwise it kills the process.  The channel of the ticker has one slot, and a
tick that finds it full is dropped.  The `select` takes any ready case.

## Main results

* `Invariant.step` — what the places of the two goroutines say about the wait
  group, the context, the ticker and the lines printed.
* `shutdown_orderly` — the lines come in order, and `main` leaves after the
  worker has.
* `shutdown_completes` — once the interrupt was caught, the process ends in
  every schedule; until then it does not.
-/

namespace GoPrep.Ports.GracefulShutdown

open GoPrep.Verified.Transition

/-! ## The process -/

/-- What the goroutines print; `waitingForInterrupt` and `exiting` are lines of
`main`. -/
inductive Line
  | waitingForInterrupt
  | doingWork
  | receivedSignal
  | exiting
  deriving DecidableEq, Repr

/-- Where the worker stands: before the statement named; the last two are its
deferred calls. -/
inductive WorkerPc
  | notStarted
  | makingTicker
  | selecting
  | printingWork
  | printingSignal
  | cleaningUp
  | stoppingTicker
  | finishing
  | returned
  deriving DecidableEq, Repr

/-- Where `main` stands; `stopping` is its deferred call. -/
inductive MainPc
  | notifying
  | adding
  | spawning
  | printingWaiting
  | waiting
  | printingExit
  | stopping
  | returned
  deriving DecidableEq, Repr

structure State where
  main : MainPc
  worker : WorkerPc
  wg : Nat
  /-- `signal.NotifyContext` is in force. -/
  notified : Bool
  ctxDone : Bool
  tickerRuns : Bool
  /-- The slot of `ticker.C`. -/
  tick : Bool
  fired : Nat
  output : List Line
  killed : Bool
  /-- A panic of the wait group. -/
  crashed : Bool
  deriving DecidableEq, Repr

def State.initial : State :=
  { main := .notifying
    worker := .notStarted
    wg := 0
    notified := false
    ctxDone := false
    tickerRuns := false
    tick := false
    fired := 0
    output := []
    killed := false
    crashed := false }

/-- The process runs until `main` returns. -/
def State.Running (s : State) : Prop :=
  s.killed = false ∧ s.crashed = false ∧ s.main ≠ .returned

def State.print (s : State) (line : Line) : State :=
  { s with output := s.output ++ [line] }

inductive Action
  | interrupt
  | tick
  | worker
  | main
  deriving DecidableEq, Repr

/-- What the environment and the two goroutines can do next. -/
inductive Move : State → Action → State → Prop
  | interrupt (s : State) : s.notified = true →
      Move s .interrupt { s with ctxDone := true }
  | kill (s : State) : s.notified = false →
      Move s .interrupt { s with killed := true }
  | tick (s : State) : s.tickerRuns = true →
      Move s .tick { s with tick := true, fired := s.fired + 1 }
  -- `main`
  | notify (s : State) : s.main = .notifying →
      Move s .main { s with notified := true, main := .adding }
  | add (s : State) : s.main = .adding →
      Move s .main { s with wg := s.wg + 1, main := .spawning }
  | spawn (s : State) : s.main = .spawning →
      Move s .main
        { s with worker := .makingTicker, main := .printingWaiting }
  | printWaiting (s : State) : s.main = .printingWaiting →
      Move s .main
        { s.print .waitingForInterrupt with main := .waiting }
  | waited (s : State) : s.main = .waiting → s.wg = 0 →
      Move s .main { s with main := .printingExit }
  | printExit (s : State) : s.main = .printingExit →
      Move s .main { s.print .exiting with main := .stopping }
  | stop (s : State) : s.main = .stopping →
      Move s .main { s with notified := false, main := .returned }
  -- `worker`
  | makeTicker (s : State) : s.worker = .makingTicker →
      Move s .worker { s with tickerRuns := true, worker := .selecting }
  | selectTick (s : State) : s.worker = .selecting → s.tick = true →
      Move s .worker { s with tick := false, worker := .printingWork }
  | selectDone (s : State) : s.worker = .selecting → s.ctxDone = true →
      Move s .worker { s with worker := .printingSignal }
  | printWork (s : State) : s.worker = .printingWork →
      Move s .worker { s.print .doingWork with worker := .selecting }
  | printSignal (s : State) : s.worker = .printingSignal →
      Move s .worker { s.print .receivedSignal with worker := .cleaningUp }
  | cleanUp (s : State) : s.worker = .cleaningUp →
      Move s .worker { s with worker := .stoppingTicker }
  | stopTicker (s : State) : s.worker = .stoppingTicker →
      Move s .worker { s with tickerRuns := false, worker := .finishing }
  | done (s : State) : s.worker = .finishing → s.wg ≠ 0 →
      Move s .worker { s with wg := s.wg - 1, worker := .returned }
  | negativeCounter (s : State) : s.worker = .finishing → s.wg = 0 →
      Move s .worker { s with crashed := true }

def Step (s : State) (a : Action) (t : State) : Prop :=
  s.Running ∧ Move s a t

/-! ## What the places say -/

/-- `main` has counted the worker. -/
def MainPc.added : MainPc → Bool
  | .notifying => false
  | .adding => false
  | _ => true

/-- `main` has started the worker. -/
def MainPc.spawned : MainPc → Bool
  | .spawning => false
  | pc => pc.added

/-- `main` is past `wg.Wait()`. -/
def MainPc.joined : MainPc → Bool
  | .printingExit => true
  | .stopping => true
  | .returned => true
  | _ => false

/-- What `main` has printed after `wg.Wait()`. -/
def MainPc.exitLines : MainPc → List Line
  | .stopping => [.exiting]
  | .returned => [.exiting]
  | _ => []

/-- The worker has seen the context cancelled. -/
def WorkerPc.signalled : WorkerPc → Bool
  | .printingSignal => true
  | .cleaningUp => true
  | .stoppingTicker => true
  | .finishing => true
  | .returned => true
  | _ => false

/-- The line of the worker about the signal, once it is printed. -/
def WorkerPc.signalLines : WorkerPc → List Line
  | .cleaningUp => [.receivedSignal]
  | .stoppingTicker => [.receivedSignal]
  | .finishing => [.receivedSignal]
  | .returned => [.receivedSignal]
  | _ => []

/-- The ticks that have been taken and not yet become a line. -/
def State.ticksHeld (s : State) : Nat :=
  (if s.tick then 1 else 0) + (if s.worker = .printingWork then 1 else 0)

/-- All lines but the one `main` prints before it waits. -/
def linesOf (output : List Line) : List Line :=
  output.filter (· ≠ .waitingForInterrupt)

def State.lines (s : State) : List Line := linesOf s.output

structure Invariant (s : State) : Prop where
  started : s.worker = .notStarted ↔ s.main.spawned = false
  wg_eq : s.wg =
    if s.main.added = true ∧ s.worker ≠ .returned then 1 else 0
  joined : s.main.joined = true → s.worker = .returned
  signalled : s.worker.signalled = true → s.ctxDone = true
  notified : s.notified = true ↔ s.main ≠ .notifying ∧ s.main ≠ .returned
  ticker : s.tickerRuns = true →
    s.worker ≠ .finishing ∧ s.worker ≠ .returned
  crashed : s.crashed = false
  lines : ∃ k, s.lines = List.replicate k .doingWork ++
      s.worker.signalLines ++ s.main.exitLines ∧
    k + s.ticksHeld ≤ s.fired

theorem invariant_initial : Invariant .initial where
  started := by decide
  wg_eq := rfl
  joined := fun h => by cases h
  signalled := fun h => by cases h
  notified := by decide
  ticker := fun h => by cases h
  crashed := rfl
  lines := ⟨0, rfl, Nat.le_refl _⟩

theorem linesOf_concat (output : List Line) {line : Line}
    (hline : line ≠ .waitingForInterrupt) :
    linesOf (output ++ [line]) = linesOf output ++ [line] := by
  simp [linesOf, hline]

theorem linesOf_waiting (output : List Line) :
    linesOf (output ++ [.waitingForInterrupt]) = linesOf output := by
  simp [linesOf]

theorem MainPc.added_of_spawned {pc : MainPc} (h : pc.spawned = true) :
    pc.added = true := by
  cases pc with
  | spawning => cases h
  | _ => exact h

namespace Invariant

variable {s t : State} {a : Action}

/-- The worker is counted until it is done. -/
theorem wg_eq_one (h : Invariant s) (hstarted : s.worker ≠ .notStarted)
    (hlive : s.worker ≠ .returned) : s.wg = 1 := by
  have hspawned : s.main.spawned = true := by
    cases hcase : s.main.spawned with
    | true => rfl
    | false => exact absurd (h.started.mpr hcase) hstarted
  rw [h.wg_eq, if_pos ⟨MainPc.added_of_spawned hspawned, hlive⟩]

/-- A worker that goes on without returning stays where `main` and the counter
have it. -/
theorem places_worker (h : Invariant s) {pc : WorkerPc}
    (hstarted : s.worker ≠ .notStarted) (hlive : s.worker ≠ .returned)
    (hnotStarted : pc ≠ .notStarted) (hnotReturned : pc ≠ .returned) :
    (pc = .notStarted ↔ s.main.spawned = false) ∧
    (s.wg = if s.main.added = true ∧ pc ≠ .returned then 1 else 0) ∧
    (s.main.joined = true → pc = .returned) ∧ s.crashed = false := by
  refine ⟨iff_of_false hnotStarted fun hspawned =>
      hstarted (h.started.mpr hspawned), ?_,
    fun hjoined => absurd (h.joined hjoined) hlive, h.crashed⟩
  rw [h.wg_eq]
  simp only [ne_eq, hlive, hnotReturned]

/-- The places of the two goroutines and the counter. -/
theorem places (h : Invariant s) (hmove : Move s a t) :
    (t.worker = .notStarted ↔ t.main.spawned = false) ∧
    (t.wg = if t.main.added = true ∧ t.worker ≠ .returned then 1 else 0) ∧
    (t.main.joined = true → t.worker = .returned) ∧ t.crashed = false := by
  have hstarted := h.started
  have hwg := h.wg_eq
  have hjoined := h.joined
  have hcrashed := h.crashed
  cases hmove with
  | interrupt | kill | tick => exact ⟨hstarted, hwg, hjoined, hcrashed⟩
  | notify hmain | printWaiting hmain | printExit hmain | stop hmain =>
      rw [hmain] at hstarted hwg hjoined
      exact ⟨hstarted, hwg, hjoined, hcrashed⟩
  | add hmain =>
      rw [hmain] at hstarted hwg hjoined
      have hworker : s.worker = .notStarted := hstarted.mpr rfl
      have hzero : s.wg = 0 := hwg
      refine ⟨hstarted, ?_, hjoined, hcrashed⟩
      show s.wg + 1 = if true = true ∧ s.worker ≠ .returned then 1 else 0
      rw [hzero, hworker]
      rfl
  | spawn hmain =>
      rw [hmain] at hstarted hwg
      rw [hstarted.mpr rfl] at hwg
      exact ⟨iff_of_false nofun nofun, hwg, nofun, hcrashed⟩
  | waited hmain hzero =>
      -- the counter is zero only when the worker has returned
      rw [hmain] at hstarted hwg
      have hreturned : s.worker = .returned := by
        by_contra hlive
        rw [if_pos ⟨rfl, hlive⟩] at hwg
        omega
      exact ⟨hstarted, hwg, fun _ => hreturned, hcrashed⟩
  | makeTicker hworker | selectTick hworker | selectDone hworker
  | printWork hworker | printSignal hworker | cleanUp hworker
  | stopTicker hworker =>
      exact h.places_worker (by rw [hworker]; decide)
        (by rw [hworker]; decide) nofun nofun
  | done hworker =>
      have hone := h.wg_eq_one (by rw [hworker]; decide)
        (by rw [hworker]; decide)
      refine ⟨iff_of_false nofun fun hspawned => ?_, ?_, fun _ => rfl,
        hcrashed⟩
      · rw [hstarted.mpr hspawned] at hworker
        cases hworker
      · show s.wg - 1 = _
        rw [hone, if_neg fun hlive => hlive.2 rfl]
  | negativeCounter hfinishing hzero =>
      have hone := h.wg_eq_one (by rw [hfinishing]; decide)
        (by rw [hfinishing]; decide)
      omega

/-- The context, the signal handler and the ticker. -/
theorem flags (h : Invariant s) (hmove : Move s a t) :
    (t.worker.signalled = true → t.ctxDone = true) ∧
    (t.notified = true ↔ t.main ≠ .notifying ∧ t.main ≠ .returned) ∧
    (t.tickerRuns = true → t.worker ≠ .finishing ∧ t.worker ≠ .returned) := by
  have hsignalled := h.signalled
  have hnotified := h.notified
  have hticker := h.ticker
  cases hmove with
  | interrupt => exact ⟨fun _ => rfl, hnotified, hticker⟩
  | kill | tick | negativeCounter => exact ⟨hsignalled, hnotified, hticker⟩
  | notify => exact ⟨hsignalled, iff_of_true rfl ⟨nofun, nofun⟩, hticker⟩
  | add hmain | printWaiting hmain | waited hmain | printExit hmain =>
      rw [hmain] at hnotified
      exact ⟨hsignalled,
        iff_of_true (hnotified.mpr ⟨nofun, nofun⟩) ⟨nofun, nofun⟩, hticker⟩
  | spawn hmain =>
      rw [hmain] at hnotified
      exact ⟨nofun,
        iff_of_true (hnotified.mpr ⟨nofun, nofun⟩) ⟨nofun, nofun⟩,
        fun _ => ⟨nofun, nofun⟩⟩
  | stop => exact ⟨hsignalled, iff_of_false nofun fun hmain => hmain.2 rfl,
      hticker⟩
  | makeTicker | selectTick | printWork =>
      exact ⟨nofun, hnotified, fun _ => ⟨nofun, nofun⟩⟩
  | selectDone _ hdone =>
      exact ⟨fun _ => hdone, hnotified, fun _ => ⟨nofun, nofun⟩⟩
  | printSignal hworker | cleanUp hworker =>
      rw [hworker] at hsignalled
      exact ⟨hsignalled, hnotified, fun _ => ⟨nofun, nofun⟩⟩
  | stopTicker hworker =>
      -- the ticker is stopped before the worker finishes
      rw [hworker] at hsignalled
      exact ⟨hsignalled, hnotified, nofun⟩
  | done hworker =>
      rw [hworker] at hsignalled
      refine ⟨hsignalled, hnotified, fun hruns => ?_⟩
      exact absurd hworker (hticker hruns).1

/-- `main` has printed nothing after its wait while the worker lives. -/
theorem exitLines_eq_nil (h : Invariant s) (hlive : s.worker ≠ .returned) :
    s.main.exitLines = [] := by
  have hjoined := mt h.joined hlive
  cases hmain : s.main with
  | stopping | returned =>
      rw [hmain] at hjoined
      exact absurd rfl hjoined
  | _ => rfl

/-- The lines, and the ticks behind them. -/
theorem lines_step (h : Invariant s) (hmove : Move s a t) :
    ∃ k, t.lines = List.replicate k .doingWork ++
        t.worker.signalLines ++ t.main.exitLines ∧
      k + t.ticksHeld ≤ t.fired := by
  obtain ⟨k, hlines, hticks⟩ := h.lines
  rw [State.ticksHeld] at hticks
  cases hmove with
  | interrupt | kill => exact ⟨k, hlines, hticks⟩
  | tick =>
      refine ⟨k, hlines, ?_⟩
      show k + (1 + if s.worker = .printingWork then 1 else 0) ≤ s.fired + 1
      omega
  | notify hmain | add hmain | waited hmain | stop hmain =>
      rw [hmain] at hlines
      exact ⟨k, hlines, hticks⟩
  | spawn hmain =>
      have hworker : s.worker = .notStarted := h.started.mpr (by
        rw [hmain]
        rfl)
      rw [hmain, hworker] at hlines
      rw [hworker] at hticks
      exact ⟨k, hlines, hticks⟩
  | printWaiting hmain =>
      rw [hmain] at hlines
      exact ⟨k, (linesOf_waiting s.output).trans hlines, hticks⟩
  | printExit hmain =>
      rw [hmain] at hlines
      refine ⟨k, ?_, hticks⟩
      show linesOf (s.output ++ [.exiting]) =
        List.replicate k .doingWork ++ s.worker.signalLines ++ [.exiting]
      have hlast : linesOf s.output =
          List.replicate k .doingWork ++ s.worker.signalLines :=
        hlines.trans (List.append_nil _)
      rw [linesOf_concat s.output (by decide), hlast]
  | makeTicker hworker | cleanUp hworker | stopTicker hworker
  | done hworker =>
      rw [hworker] at hlines hticks
      exact ⟨k, hlines, hticks⟩
  | selectDone hworker =>
      rw [hworker] at hlines hticks
      exact ⟨k, hlines, hticks⟩
  | selectTick hworker htick =>
      rw [hworker] at hlines
      rw [hworker, htick] at hticks
      exact ⟨k, hlines, hticks⟩
  | printWork hworker =>
      have hexit := h.exitLines_eq_nil (by rw [hworker]; decide)
      rw [hworker, hexit] at hlines
      rw [hworker, if_pos rfl] at hticks
      refine ⟨k + 1, ?_, ?_⟩
      · show linesOf (s.output ++ [.doingWork]) =
          List.replicate (k + 1) .doingWork ++ [] ++ s.main.exitLines
        have hlast : s.lines = List.replicate k .doingWork := by
          simpa [WorkerPc.signalLines] using hlines
        rw [linesOf_concat s.output (by decide), ← State.lines, hlast, hexit,
          List.append_nil, List.append_nil, List.replicate_succ']
      · show k + 1 + ((if s.tick then 1 else 0) + 0) ≤ s.fired
        omega
  | printSignal hworker =>
      have hexit := h.exitLines_eq_nil (by rw [hworker]; decide)
      rw [hworker, hexit] at hlines
      rw [hworker] at hticks
      refine ⟨k, ?_, hticks⟩
      show linesOf (s.output ++ [.receivedSignal]) =
        List.replicate k .doingWork ++ [.receivedSignal] ++ s.main.exitLines
      have hlast : s.lines = List.replicate k .doingWork := by
        simpa [WorkerPc.signalLines] using hlines
      rw [linesOf_concat s.output (by decide), ← State.lines, hlast, hexit,
        List.append_nil]
  | negativeCounter hworker => exact ⟨k, hlines, hticks⟩

/-- **Every step preserves the invariant.** -/
theorem step (h : Invariant s) (hstep : Step s a t) : Invariant t := by
  obtain ⟨-, hmove⟩ := hstep
  obtain ⟨hstarted, hwg, hjoined, hcrashed⟩ := h.places hmove
  obtain ⟨hsignalled, hnotified, hticker⟩ := h.flags hmove
  exact ⟨hstarted, hwg, hjoined, hsignalled, hnotified, hticker, hcrashed,
    h.lines_step hmove⟩

theorem of_reaches (hs : Reaches Step .initial s) : Invariant s :=
  hs.invariant (fun _ _ _ h hstep => h.step hstep) invariant_initial

end Invariant

/-- **The shutdown is orderly.**  In every reachable state, whenever the
interrupt and the ticks come: the wait group does not panic; of the lines but
the first of `main`, those about work come first, at most one for each tick,
then the one about the signal, then the last of `main`; the signal is only
reported after an interrupt was caught; and when `main` goes on after its wait
the worker has cleaned up and stopped its ticker. -/
theorem shutdown_orderly {s : State} (hs : Reaches Step .initial s) :
    s.crashed = false ∧
    (∃ k, s.lines = List.replicate k .doingWork ++ s.worker.signalLines ++
        s.main.exitLines ∧ k ≤ s.fired) ∧
    (s.worker.signalled = true → s.ctxDone = true) ∧
    (s.main.joined = true → s.worker = .returned ∧ s.ctxDone = true ∧
      s.tickerRuns = false ∧ s.wg = 0) := by
  have h := Invariant.of_reaches hs
  obtain ⟨k, hlines, hticks⟩ := h.lines
  refine ⟨h.crashed, ⟨k, hlines, by omega⟩, h.signalled, fun hjoined => ?_⟩
  have hreturned := h.joined hjoined
  refine ⟨hreturned, h.signalled (by rw [hreturned]; rfl), ?_, ?_⟩
  · cases hticker : s.tickerRuns with
    | false => rfl
    | true => exact absurd hreturned (h.ticker hticker).2
  · rw [h.wg_eq, if_neg fun hlive => hlive.2 hreturned]

/-- The worker has taken its first tick. -/
def working : State :=
  { State.initial with
    main := .waiting
    worker := .printingWork
    wg := 1
    notified := true
    tickerRuns := true
    fired := 1
    output := [.waitingForInterrupt] }

theorem running {s : State} (hkilled : s.killed = false)
    (hcrashed : s.crashed = false) (hmain : s.main ≠ .returned) :
    s.Running :=
  ⟨hkilled, hcrashed, hmain⟩

theorem reaches_working : Reaches Step .initial working := by
  have hspawned : Reaches Step .initial _ := ((Reaches.refl.tail
    ⟨running rfl rfl (by decide), .notify State.initial rfl⟩).tail
    ⟨running rfl rfl (by decide), .add _ rfl⟩).tail
    ⟨running rfl rfl (by decide), .spawn _ rfl⟩
  exact (((hspawned.tail
    ⟨running rfl rfl (by decide), .printWaiting _ rfl⟩).tail
    ⟨running rfl rfl (by decide), .makeTicker _ rfl⟩).tail
    ⟨running rfl rfl (by decide), .tick _ rfl⟩).tail
    ⟨running rfl rfl (by decide), .selectTick _ rfl rfl⟩

/-- A tick, the interrupt, a tick that the `select` prefers, and the end. -/
def ended : State :=
  { State.initial with
    main := .returned
    worker := .returned
    ctxDone := true
    fired := 2
    output := [.waitingForInterrupt, .doingWork, .doingWork, .receivedSignal,
      .exiting] }

theorem reaches_ended : Reaches Step .initial ended := by
  have hworked := ((((reaches_working.tail
    ⟨running rfl rfl (by decide), .printWork _ rfl⟩).tail
    ⟨running rfl rfl (by decide), .tick _ rfl⟩).tail
    ⟨running rfl rfl (by decide), .interrupt _ rfl⟩).tail
    ⟨running rfl rfl (by decide), .selectTick _ rfl rfl⟩).tail
    ⟨running rfl rfl (by decide), .printWork _ rfl⟩
  have hcleaned := ((((hworked.tail
    ⟨running rfl rfl (by decide), .selectDone _ rfl rfl⟩).tail
    ⟨running rfl rfl (by decide), .printSignal _ rfl⟩).tail
    ⟨running rfl rfl (by decide), .cleanUp _ rfl⟩).tail
    ⟨running rfl rfl (by decide), .stopTicker _ rfl⟩).tail
    ⟨running rfl rfl (by decide), .done _ rfl (by decide)⟩
  exact ((hcleaned.tail
    ⟨running rfl rfl (by decide), .waited _ rfl rfl⟩).tail
    ⟨running rfl rfl (by decide), .printExit _ rfl⟩).tail
    ⟨running rfl rfl (by decide), .stop _ rfl⟩

theorem shutdown_orderly_ended :
    ∃ k, ended.lines = List.replicate k .doingWork ++ [.receivedSignal] ++
      [.exiting] ∧ k ≤ 2 :=
  (shutdown_orderly reaches_ended).2.1

/-! ## When it ends -/

/-- The steps of the two goroutines: no more ticks and interrupts come. -/
def OwnStep (s : State) (a : Action) (t : State) : Prop :=
  (a = .worker ∨ a = .main) ∧ Step s a t

def MainPc.rank : MainPc → Nat
  | .notifying => 7
  | .adding => 6
  | .spawning => 5
  | .printingWaiting => 4
  | .waiting => 3
  | .printingExit => 2
  | .stopping => 1
  | .returned => 0

def WorkerPc.rank : WorkerPc → Nat
  | .notStarted => 7
  | .makingTicker => 6
  | .selecting => 5
  | .printingWork => 6
  | .printingSignal => 4
  | .cleaningUp => 3
  | .stoppingTicker => 2
  | .finishing => 1
  | .returned => 0

/-- The steps still to take; a tick in the slot is worth two. -/
def State.rank (s : State) : Nat :=
  s.main.rank + s.worker.rank + if s.tick then 2 else 0

theorem State.rank_le (s : State) : s.rank ≤ 16 := by
  have hmain : s.main.rank ≤ 7 := by cases s.main <;> decide
  have hworker : s.worker.rank ≤ 7 := by cases s.worker <;> decide
  rw [State.rank]
  split <;> omega

/-- The process has ended after the whole shutdown. -/
def State.Ended (s : State) : Prop :=
  s.main = .returned ∧ s.worker = .returned ∧ s.notified = false ∧
    ∃ k, s.lines =
      List.replicate k .doingWork ++ [.receivedSignal] ++ [.exiting]

/-- `main` waits for a worker that waits for a tick or the interrupt. -/
def State.Waits (s : State) : Prop :=
  s.main = .waiting ∧ s.worker = .selecting ∧ s.tick = false ∧
    ∃ k, s.lines = List.replicate k .doingWork

namespace Invariant

variable {s t : State} {a : Action}

theorem rank_step (h : Invariant s) (hstep : OwnStep s a t) :
    t.rank < s.rank := by
  obtain ⟨hown, -, hmove⟩ := hstep
  cases hmove with
  | interrupt | kill | tick => simp at hown
  | negativeCounter hworker hzero =>
      have hone := h.wg_eq_one (by rw [hworker]; decide)
        (by rw [hworker]; decide)
      omega
  | notify hpc | add hpc | waited hpc | stop hpc =>
      simp only [State.rank, hpc, MainPc.rank]
      omega
  | spawn hmain =>
      have hworker : s.worker = .notStarted := h.started.mpr (by
        rw [hmain]
        rfl)
      simp only [State.rank, hmain, hworker, MainPc.rank, WorkerPc.rank]
      omega
  | printWaiting hpc | printExit hpc =>
      simp only [State.rank, State.print, hpc, MainPc.rank]
      omega
  | makeTicker hpc | selectDone hpc | cleanUp hpc | stopTicker hpc
  | done hpc =>
      simp only [State.rank, hpc, WorkerPc.rank]
      omega
  | selectTick hpc htick =>
      simp only [State.rank, hpc, htick, WorkerPc.rank, if_true,
        Bool.false_eq_true, if_false]
      omega
  | printWork hpc | printSignal hpc =>
      simp only [State.rank, State.print, hpc, WorkerPc.rank]
      omega

/-- A goroutine can go on, or the worker waits in its `select`. -/
theorem progress (h : Invariant s) (hrunning : s.Running) :
    (∃ a t, OwnStep s a t) ∨
      (s.main = .waiting ∧ s.worker = .selecting ∧ s.tick = false ∧
        s.ctxDone = false) := by
  have main {t : State} (hmove : Move s .main t) : ∃ a t, OwnStep s a t :=
    ⟨_, _, .inr rfl, hrunning, hmove⟩
  have worker {t : State} (hmove : Move s .worker t) :
      ∃ a t, OwnStep s a t := ⟨_, _, .inl rfl, hrunning, hmove⟩
  cases hmain : s.main with
  | notifying => exact .inl (main (.notify s hmain))
  | adding => exact .inl (main (.add s hmain))
  | spawning => exact .inl (main (.spawn s hmain))
  | printingWaiting => exact .inl (main (.printWaiting s hmain))
  | printingExit => exact .inl (main (.printExit s hmain))
  | stopping => exact .inl (main (.stop s hmain))
  | returned => exact absurd hmain hrunning.2.2
  | waiting =>
      cases hworker : s.worker with
      | notStarted =>
          have hspawned := h.started.mp hworker
          rw [hmain] at hspawned
          cases hspawned
      | makingTicker => exact .inl (worker (.makeTicker s hworker))
      | printingWork => exact .inl (worker (.printWork s hworker))
      | printingSignal => exact .inl (worker (.printSignal s hworker))
      | cleaningUp => exact .inl (worker (.cleanUp s hworker))
      | stoppingTicker => exact .inl (worker (.stopTicker s hworker))
      | finishing =>
          have hone := h.wg_eq_one (by rw [hworker]; decide)
            (by rw [hworker]; decide)
          exact .inl (worker (.done s hworker (by omega)))
      | returned =>
          have hzero : s.wg = 0 := by
            rw [h.wg_eq, if_neg fun hlive => hlive.2 hworker]
          exact .inl (main (.waited s hmain hzero))
      | selecting =>
          by_cases htick : s.tick = true
          · exact .inl (worker (.selectTick s hworker htick))
          by_cases hdone : s.ctxDone = true
          · exact .inl (worker (.selectDone s hworker hdone))
          exact .inr ⟨rfl, rfl, by simpa using htick, by simpa using hdone⟩

theorem ended (h : Invariant s) (hmain : s.main = .returned) : s.Ended := by
  have hworker : s.worker = .returned := h.joined (by
    rw [hmain]
    rfl)
  obtain ⟨k, hlines, -⟩ := h.lines
  rw [hmain, hworker] at hlines
  refine ⟨hmain, hworker, ?_, k, hlines⟩
  cases hnotified : s.notified with
  | false => rfl
  | true => exact absurd hmain (h.notified.mp hnotified).2

end Invariant

theorem OwnStep.ctxDone_eq {s t : State} {a : Action}
    (hstep : OwnStep s a t) : t.ctxDone = s.ctxDone := by
  obtain ⟨hown, -, hmove⟩ := hstep
  cases hmove with
  | interrupt | kill | tick => simp at hown
  | _ => rfl

theorem OwnStep.killed_eq {s t : State} {a : Action}
    (hstep : OwnStep s a t) : t.killed = s.killed := by
  obtain ⟨hown, -, hmove⟩ := hstep
  cases hmove with
  | interrupt | kill | tick => simp at hown
  | _ => rfl

/-- **The interrupt ends the process, and nothing else does.**  From every
reachable state of a process that was not killed, when no more ticks and
interrupts come, no schedule of the two goroutines takes more than sixteen
steps: after an interrupt was caught each one ends with the whole shutdown
printed and the signal released, and without one each comes to rest with
`main` and the worker waiting. -/
theorem shutdown_completes {s : State} (hs : Reaches Step .initial s)
    (halive : s.killed = false) :
    (s.ctxDone = true → Inevitable OwnStep State.Ended s) ∧
    (s.ctxDone = false → Inevitable OwnStep State.Waits s) ∧
    ∀ run, IsRun OwnStep s run → run.length ≤ 16 := by
  have hinvariant := Invariant.of_reaches hs
  let Alive (done : Bool) (t : State) : Prop :=
    Invariant t ∧ t.killed = false ∧ t.ctxDone = done
  have hstep : ∀ done t a u, Alive done t → OwnStep t a u → Alive done u :=
    fun _ _ _ _ ht hown => ⟨ht.1.step hown.2,
      hown.killed_eq.trans ht.2.1, hown.ctxDone_eq.trans ht.2.2⟩
  have hrank : ∀ done t a u, Alive done t → OwnStep t a u →
      u.rank < t.rank := fun _ _ _ _ ht hown => ht.1.rank_step hown
  refine ⟨fun hdone => ?_, fun hdone => ?_, fun run hrun => ?_⟩
  · refine .of_rank State.rank (hstep true) (hrank true) ?_
      ⟨hinvariant, halive, hdone⟩
    intro t ht hopen
    have hrunning : t.Running :=
      ⟨ht.2.1, ht.1.crashed, fun hmain => hopen (ht.1.ended hmain)⟩
    rcases ht.1.progress hrunning with hgo | ⟨-, -, -, hquiet⟩
    · exact hgo
    · cases hquiet.symm.trans ht.2.2
  · refine .of_rank State.rank (hstep false) (hrank false) ?_
      ⟨hinvariant, halive, hdone⟩
    intro t ht hopen
    have hlive : t.main ≠ .returned := by
      intro hmain
      obtain ⟨-, hworker, -⟩ := ht.1.ended hmain
      have hsignal := ht.1.signalled (by rw [hworker]; rfl)
      cases hsignal.symm.trans ht.2.2
    rcases ht.1.progress ⟨ht.2.1, ht.1.crashed, hlive⟩ with
      hgo | ⟨hmain, hworker, htick, -⟩
    · exact hgo
    · obtain ⟨k, hlines, -⟩ := ht.1.lines
      rw [hmain, hworker] at hlines
      exact absurd ⟨hmain, hworker, htick, k, by simpa
        [WorkerPc.signalLines, MainPc.exitLines] using hlines⟩ hopen
  · have hbound := hrun.length_le_rank State.rank (hstep s.ctxDone)
      (hrank s.ctxDone) ⟨hinvariant, halive, rfl⟩
    exact Nat.le_trans hbound s.rank_le

theorem shutdown_completes_interrupted :
    Inevitable OwnStep State.Ended { working with ctxDone := true } :=
  (shutdown_completes (reaches_working.tail
    ⟨running rfl rfl (by decide), .interrupt _ rfl⟩) rfl).1 rfl

end GoPrep.Ports.GracefulShutdown
