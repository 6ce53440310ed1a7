import GoPrep.Ports.FanInAndOut
import GoPrep.Verified.Inevitable

/-!
# The fan-in program returns

Every goroutine of `FanInAndOut` is at a send, a receive, a `close`, a `Wait`
or between two of them.  This file ranks the states of the process by the
steps still to take, and follows who waits for whom: `main` for a processor
or the monitor, a processor for `generate` or `main`, the monitor for the
processors, and `generate` for a processor or nobody.

## Main results

* `rank_step` — every step lowers the rank.
* `Control.progress` — some goroutine can go on until `main` has returned.
* `fanIn_returns` — no run deadlocks or goes on for ever: `main` returns,
  with every number dealt, processed and printed.
-/

namespace GoPrep.Ports.FanInAndOut

open GoPrep.Verified.ThreadTable
open GoPrep.Verified.Transition

/-! ## The rank -/

/-- The steps a goroutine has still to take, but for the numbers it may yet
receive. -/
def GeneratePc.rank : GeneratePc → Nat
  | .notStarted => 2
  | .sending => 1
  | .returned => 0

def ProcessorPc.rank : ProcessorPc → Nat
  | .receiving => 2
  | .sending _ => 5
  | .resting => 3
  | .leaving => 1
  | .returned => 0

def MonitorPc.rank : MonitorPc → Nat
  | .notStarted => 3
  | .waiting => 2
  | .closing => 1
  | .returned => 0

def MainPc.rank (count : Nat) : MainPc → Nat
  | .generate => 4 * count + 3
  | .add i => 4 * (count - i) + 2
  | .spawn i => 4 * (count - i) + 1
  | .receiving => 1
  | .printing _ => 2
  | .returned => 0

/-- A bound on the steps the process has still to take.  A number is dealt,
sent, printed and slept on: four steps. -/
def State.rank (count : Nat) (s : State) : Nat :=
  4 * s.pending.length + s.generate.rank +
    (s.processors.map ProcessorPc.rank).sum + s.monitor.rank +
    s.main.rank count

theorem rank_goto {s : State} {p : Nat} {old : ProcessorPc}
    (hp : s.processors[p]? = some old) (new : ProcessorPc) (count : Nat) :
    (s.goto p new).rank count + old.rank = s.rank count + new.rank := by
  have hsum := sum_map_set ProcessorPc.rank hp new
  simp only [State.rank, State.goto]
  omega

/-- **Every step uses up some of the rank.** -/
theorem rank_step {work : List (Int64 → Int64)} {s t : State} {a : Action}
    (h : Control work.length s) (hstep : Step work s a t) :
    t.rank work.length < s.rank work.length := by
  cases hstep with
  | goGenerate _ hmain =>
      have hgenerate := h.generate_iff.mpr hmain
      simp only [State.rank, hmain, hgenerate, MainPc.rank, GeneratePc.rank]
      omega
  | add i _ hmain hlt =>
      simp only [State.rank, hmain, MainPc.rank]
      omega
  | goProcessor i _ hmain =>
      have hlt := h.inRange
      rw [hmain] at hlt
      have hlt' : i < work.length := hlt
      simp only [State.rank, hmain, MainPc.rank, List.map_append,
        List.sum_append, List.map_singleton, List.sum_singleton,
        ProcessorPc.rank]
      omega
  | goMonitor _ hmain =>
      have hmonitor := h.monitor_iff
      rw [hmain] at hmonitor
      simp only [State.rank, hmain, hmonitor.mpr rfl, MainPc.rank,
        MonitorPc.rank]
      omega
  | deal p val rest _ _ hpending _ hp =>
      have hgoto := rank_goto hp (.sending val) work.length
      simp only [State.rank, State.deal, State.goto, hpending,
        ProcessorPc.rank, List.length_cons] at hgoto ⊢
      omega
  | closeInput _ hsending _ _ =>
      simp only [State.rank, hsending, GeneratePc.rank]
      omega
  | leaveRange p _ hp _ =>
      have hgoto := rank_goto hp .leaving work.length
      simp only [ProcessorPc.rank] at hgoto
      omega
  | send p val f _ hp _ _ hmain =>
      have hgoto := rank_goto hp .resting work.length
      simp only [State.rank, State.send, State.goto, hmain, ProcessorPc.rank,
        MainPc.rank] at hgoto ⊢
      omega
  | rested p _ hp =>
      have hgoto := rank_goto hp .receiving work.length
      simp only [ProcessorPc.rank] at hgoto
      omega
  | done p _ hp _ =>
      have hgoto := rank_goto hp .returned work.length
      simp only [State.rank, State.goto, ProcessorPc.rank] at hgoto ⊢
      omega
  | waited _ hwaiting _ =>
      simp only [State.rank, hwaiting, MonitorPc.rank]
      omega
  | closeOutput _ hclosing _ =>
      simp only [State.rank, hclosing, MonitorPc.rank]
      omega
  | print val _ hmain =>
      simp only [State.rank, hmain, MainPc.rank]
      omega
  | leaveMain _ hmain _ =>
      simp only [State.rank, hmain, MainPc.rank]
      omega
  | sendOnClosedInput val rest _ hsending _ hclosed =>
      cases hsending.symm.trans (h.input_iff.mp hclosed)
  | closeClosedInput _ hsending _ hclosed =>
      cases hsending.symm.trans (h.input_iff.mp hclosed)
  | sendOnClosedOutput p val _ hp hclosed =>
      have hopen := h.outputClosed_false (h.wg_ne_zero hp rfl)
      cases hopen.symm.trans hclosed
  | negativeCounter p _ hp hwg => exact absurd hwg (h.wg_ne_zero hp rfl)
  | closeClosedOutput _ hclosing hclosed =>
      cases hclosing.symm.trans (h.output_iff.mp hclosed)

/-! ## Who can go on -/

namespace Control

variable {work : List (Int64 → Int64)} {s : State}

/-- A goroutine that waits for nothing but `main`'s receive can go on while
`main` is at its loop. -/
theorem progress_of_busy (h : Control work.length s) (hrunning : s.Running)
    (hmain : s.main = .receiving) {p : Nat} {pc : ProcessorPc}
    (hp : s.processors[p]? = some pc) (hbusy : pc ≠ .receiving)
    (hlive : pc.isLive = true) : ∃ a t, Step work s a t := by
  have hwg := h.wg_ne_zero hp hlive
  cases pc with
  | receiving => exact absurd rfl hbusy
  | sending val =>
      have hlt : p < work.length := by
        have hlength := lt_length_of_getElem? hp
        have hstarted := h.started
        rw [hmain] at hstarted
        exact Nat.lt_of_lt_of_eq hlength hstarted
      have hf : work[p]? = some work[p] := List.getElem?_eq_getElem hlt
      have hopen := h.outputClosed_false hwg
      exact ⟨_, _, .send s p val _ hrunning hp hf hopen hmain⟩
  | resting => exact ⟨_, _, .rested s p hrunning hp⟩
  | leaving => exact ⟨_, _, .done s p hrunning hp hwg⟩
  | returned => cases hlive

/-- While a processor waits for a number, `generate` or the processor can go
on. -/
theorem progress_of_receiving (h : Control work.length s)
    (hrunning : s.Running) (hmain : s.main = .receiving) {p : Nat}
    (hp : s.processors[p]? = some .receiving) :
    ∃ a t, Step work s a t := by
  cases hclosed : s.inputClosed with
  | true => exact ⟨_, _, .leaveRange s p hrunning hp hclosed⟩
  | false =>
      have hsending : s.generate = .sending := by
        cases hgenerate : s.generate with
        | notStarted =>
            cases hmain.symm.trans (h.generate_iff.mp hgenerate)
        | sending => rfl
        | returned =>
            cases hclosed.symm.trans (h.input_iff.mpr hgenerate)
      cases hpending : s.pending with
      | nil => exact ⟨_, _, .closeInput s hrunning hsending hpending hclosed⟩
      | cons val rest =>
          exact ⟨_, _,
            .deal s p val rest hrunning hsending hpending hclosed hp⟩

/-- When every processor is done, the monitor or `main` can go on. -/
theorem progress_of_done (h : Control work.length s) (hrunning : s.Running)
    (hmain : s.main = .receiving)
    (hdone : ∀ pc ∈ s.processors, pc.isLive = false) :
    ∃ a t, Step work s a t := by
  cases hmonitor : s.monitor with
  | notStarted =>
      have hstarting := h.monitor_iff.mp hmonitor
      rw [hmain] at hstarting
      cases hstarting
  | waiting =>
      have hzero : s.wg = 0 := by
        rw [h.wg_eq, hmain, List.countP_eq_zero.mpr]
        · rfl
        · intro pc hpc
          simp [hdone pc hpc]
      exact ⟨_, _, .waited s hrunning hmonitor hzero⟩
  | closing =>
      have hopen : s.outputClosed = false := by
        cases hclosed : s.outputClosed with
        | false => rfl
        | true => cases hmonitor.symm.trans (h.output_iff.mp hclosed)
      exact ⟨_, _, .closeOutput s hrunning hmonitor hopen⟩
  | returned =>
      exact ⟨_, _, .leaveMain s hrunning hmain (h.output_iff.mpr hmonitor)⟩

/-- **There is no deadlock.** -/
theorem progress (h : Control work.length s) (hmain : s.main ≠ .returned) :
    ∃ a t, Step work s a t := by
  have hrunning : s.Running := ⟨h.not_crashed, hmain⟩
  cases hpc : s.main with
  | generate => exact ⟨_, _, .goGenerate s hrunning hpc⟩
  | add i =>
      have hrange := h.inRange
      rw [hpc] at hrange
      rcases Nat.lt_or_eq_of_le hrange with hlt | rfl
      · exact ⟨_, _, .add s i hrunning hpc hlt⟩
      · exact ⟨_, _, .goMonitor s hrunning hpc⟩
  | spawn i => exact ⟨_, _, .goProcessor s i hrunning hpc⟩
  | printing val => exact ⟨_, _, .print s val hrunning hpc⟩
  | returned => exact absurd hpc hmain
  | receiving =>
      by_cases hdone : ∀ pc ∈ s.processors, pc.isLive = false
      · exact h.progress_of_done hrunning hpc hdone
      · push Not at hdone
        obtain ⟨pc, hmem, hlive⟩ := hdone
        have hlive' : pc.isLive = true := by simpa using hlive
        obtain ⟨p, hp⟩ := List.mem_iff_getElem?.mp hmem
        by_cases hreceiving : pc = .receiving
        · subst hreceiving
          exact h.progress_of_receiving hrunning hpc hp
        · exact h.progress_of_busy hrunning hpc hp hreceiving hlive'

end Control

/-- **Every run ends with everything printed.**  No run is longer than the
bound, and whichever way the goroutines are scheduled `main` returns. -/
theorem fanIn_returns (numbers : List Int64) :
    Inevitable (Step program) (Finished program numbers)
        (State.initial numbers) ∧
      ∀ run, IsRun (Step program) (State.initial numbers) run →
        run.length ≤ 4 * numbers.length + 16 := by
  have hstep : ∀ s a t, Invariant program numbers s → Step program s a t →
      Invariant program numbers t := fun _ _ _ hs hst => hs.step hst
  have hrank : ∀ s a t, Invariant program numbers s → Step program s a t →
      t.rank program.length < s.rank program.length :=
    fun _ _ _ hs hst => rank_step hs.control hst
  have hinitial := Invariant.initial program numbers
  constructor
  · refine .of_rank (State.rank program.length) hstep hrank ?_ hinitial
    intro s hs hrest
    apply hs.control.progress
    intro hmain
    exact hrest (hs.finished (List.cons_ne_nil _ _) hmain)
  · intro run hrun
    have hlength := hrun.length_le_rank _ hstep hrank hinitial
    have hbound : (State.initial numbers).rank program.length =
        4 * numbers.length + 16 := rfl
    rwa [hbound] at hlength

end GoPrep.Ports.FanInAndOut
