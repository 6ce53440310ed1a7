import GoPrep.Ports.Dispatcher

/-!
# The rate of the dispatcher

A worker takes a token before it takes a job, and carries the token while it
waits for one.  A token is in the one-slot channel of the ticker or with a
worker at its inner `select`, so whenever an interval of a run begins there
are at most `workerCount + 1` of them, and a tick makes at most one more.

## Main results

* `heldTokens_step` — a step that starts a job spends a token, and only a tick
  adds one.
* `starts_le_ticks` — in every interval of every run the jobs started are at
  most the ticks fired plus `workerCount + 1`, and from the start of the run at
  most the ticks fired.
-/

namespace GoPrep.Ports.Dispatcher

open GoPrep.Verified.ThreadTable
open GoPrep.Verified.Transition

variable {Job : Type}

/-- The step calls a function value, which is where a job starts. -/
def Action.isStart : Action Job → Bool
  | .workerReceive _ => true
  | _ => false

def Action.isTick : Action Job → Bool
  | .tick => true
  | _ => false

/-- The jobs that start in an interval of a run. -/
def startsIn (interval : List (Action Job × State Job)) : Nat :=
  interval.countP fun entry => entry.1.isStart

/-- The ticks that fire in it. -/
def ticksIn (interval : List (Action Job × State Job)) : Nat :=
  interval.countP fun entry => entry.1.isTick

/-- The worker carries a token. -/
def WorkerPc.holdsToken : WorkerPc Job → Bool
  | .inner => true
  | _ => false

/-- The tokens in the channel of the ticker and with the workers. -/
def State.heldTokens (s : State Job) : Nat :=
  s.workers.countP WorkerPc.holdsToken + (if s.token then 1 else 0)

theorem heldTokens_initial (workerCount : Nat) :
    (State.initial workerCount : State Job).heldTokens = 0 := by
  simp [State.heldTokens, State.initial, WorkerPc.holdsToken,
    List.countP_replicate]

theorem heldTokens_le (s : State Job) :
    s.heldTokens ≤ s.workers.length + 1 := by
  have hworkers := List.countP_le_length (p := WorkerPc.holdsToken)
    (l := s.workers)
  rw [State.heldTokens]
  split <;> omega

/-- A worker takes its token along. -/
theorem heldTokens_workerGoto {s : State Job} {w : Nat} {old : WorkerPc Job}
    (hw : s.workers[w]? = some old) (new : WorkerPc Job) :
    (s.workerGoto w new).heldTokens + (if old.holdsToken then 1 else 0) =
      s.heldTokens + (if new.holdsToken then 1 else 0) := by
  have hcount := countP_set WorkerPc.holdsToken hw new
  show (s.workers.set w new).countP WorkerPc.holdsToken +
      (if s.token then 1 else 0) + _ = _
  rw [State.heldTokens]
  omega

/-- **A start spends a token, and only a tick adds one.** -/
theorem heldTokens_step {s t : State Job} {a : Action Job} (h : Step s a t) :
    t.heldTokens + (if a.isStart then 1 else 0) ≤
      s.heldTokens + (if a.isTick then 1 else 0) := by
  cases h.2 with
  | tick _ =>
      show s.workers.countP WorkerPc.holdsToken + 1 + 0 ≤ s.heldTokens + 1
      rw [State.heldTokens]
      omega
  | workerQuit w pc hw hpc _ =>
      have hmoves := heldTokens_workerGoto hw .exited
      show (s.workerGoto w .exited).heldTokens + 0 ≤ s.heldTokens + 0
      simp only [WorkerPc.holdsToken, Bool.false_eq_true, if_false] at hmoves
      omega
  | workerToken w hw htoken =>
      have hmoves := heldTokens_workerGoto hw .inner
      show (s.workers.set w .inner).countP WorkerPc.holdsToken + 0 + 0 ≤
        s.heldTokens + 0
      simp only [State.heldTokens, State.workerGoto, htoken,
        WorkerPc.holdsToken, if_true, Bool.false_eq_true, if_false]
        at hmoves ⊢
      omega
  | workerReceive w currJob rest hw _ =>
      have hmoves := heldTokens_workerGoto hw (.running currJob)
      exact Nat.le_of_eq hmoves
  | workerReceiveClosed w hw _ _ =>
      have hmoves := heldTokens_workerGoto hw .panicked
      exact Nat.le_of_eq hmoves
  | jobReturns w currJob result hw =>
      have hmoves := heldTokens_workerGoto hw (.sending result)
      exact Nat.le_of_eq hmoves
  | jobPanics w currJob hw =>
      have hmoves := heldTokens_workerGoto hw .panicked
      exact Nat.le_of_eq hmoves
  | workerSend w result hw _ _ =>
      have hmoves := heldTokens_workerGoto hw .outer
      exact Nat.le_of_eq hmoves
  | workerSendClosed w result hw _ =>
      have hmoves := heldTokens_workerGoto hw .panicked
      exact Nat.le_of_eq hmoves
  | _ => exact Nat.le_refl _

/-- In any interval the starts are paid for by the tokens at hand and the
ticks. -/
theorem startsIn_le {s : State Job} {interval : List (Action Job × State Job)}
    (hrun : IsRun Step s interval) :
    startsIn interval ≤ ticksIn interval + s.heldTokens := by
  induction interval generalizing s with
  | nil => exact Nat.zero_le _
  | cons entry rest ih =>
      have hstep := heldTokens_step hrun.1
      have hrest := ih hrun.2
      simp only [startsIn, ticksIn, List.countP_cons] at hrest ⊢
      omega

/-- **Pool-wide rate bound with bounded burst.**  In every interval of every
run of every dispatcher, however submits, ticks and workers interleave, the
jobs that start are at most the ticks that fire in the interval plus
`workerCount + 1`; from the start of the run they are at most the ticks fired
so far. -/
theorem starts_le_ticks {workerCount rateLimitPerSec : Int}
    {s₀ : State Job}
    (hnew : newDispatcher workerCount rateLimitPerSec = .ok s₀) :
    (∀ s interval, Reaches Step s₀ s → IsRun Step s interval →
      startsIn interval ≤ ticksIn interval + (workerCount.toNat + 1)) ∧
    ∀ run, IsRun Step s₀ run → startsIn run ≤ ticksIn run := by
  obtain rfl := eq_initial_of_newDispatcher hnew
  constructor
  · intro s interval hs hrun
    have hlength : s.workers.length = workerCount.toNat := by
      apply hs.invariant (fun s _ t h hstep => hstep.workers_length.trans h)
      exact List.length_replicate
    have hstarts := startsIn_le hrun
    have hheld := heldTokens_le s
    omega
  · intro run hrun
    have hstarts := startsIn_le hrun
    rw [heldTokens_initial] at hstarts
    exact hstarts

/-- The burst is reached: one token in the slot and one with the only worker
start two jobs with no tick between them. -/
theorem starts_le_ticks_burst :
    ∃ (s : State Unit) (interval : List (Action Unit × State Unit)),
      Reaches Step (State.initial 1) s ∧ IsRun Step s interval ∧
      startsIn interval = 2 ∧ ticksIn interval = 0 ∧
      startsIn interval ≤ ticksIn interval + (1 + 1) := by
  have htick : Step (State.initial 1 : State Unit) .tick _ :=
    ⟨rfl, .tick _ rfl⟩
  have htokens : Reaches Step (State.initial 1 : State Unit)
      { State.initial 1 with workers := [.inner], token := true, fired := 2 } :=
    ((Reaches.single htick).tail ⟨rfl, .workerToken _ 0 rfl rfl⟩).tail
      ⟨rfl, .tick _ rfl⟩
  have hrun : IsRun (α := Action Unit) Step
      { State.initial 1 with workers := [.inner], token := true, fired := 2 }
      [(_, _), (_, _), (_, _), (_, _), (_, _), (_, _), (_, _), (_, _),
        (_, _)] :=
    ⟨⟨rfl, .submit _ ()⟩, ⟨rfl, .submitSend _ 0 _ rfl rfl rfl (by decide)⟩,
      ⟨rfl, .workerReceive _ 0 (0, ()) [] rfl rfl⟩,
      ⟨rfl, .jobReturns _ 0 _ "done" rfl⟩,
      ⟨rfl, .workerSend _ 0 _ rfl rfl (by decide)⟩,
      ⟨rfl, .workerToken _ 0 rfl rfl⟩, ⟨rfl, .submit _ ()⟩,
      ⟨rfl, .submitSend _ 1 _ rfl rfl rfl (by decide)⟩,
      ⟨rfl, .workerReceive _ 0 (1, ()) [] rfl rfl⟩, trivial⟩
  have hnew : newDispatcher 1 1 = .ok (State.initial 1 : State Unit) := rfl
  exact ⟨_, _, htokens, hrun, rfl, rfl,
    (starts_le_ticks hnew).1 _ _ htokens hrun⟩

end GoPrep.Ports.Dispatcher
