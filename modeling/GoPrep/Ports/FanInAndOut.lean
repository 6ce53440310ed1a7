import GoPrep.Verified.GroupFold
import GoPrep.Verified.ThreadTable
import GoPrep.Verified.Transition

/-!
# Fan-out and fan-in over unbuffered channels

A port of `src/go-concurrency-practice/fan-in-and-out/main.go`: `generate`
sends its numbers on `input_channel` and closes it, the processors range over
that channel and send their results on `output_channel`, a monitor closes the
output channel when the wait group says that the processors are done, and
`main` ranges over it and prints.

The channels are unbuffered, so a send and its receive are one step of two
goroutines.  `main` starts the goroutines in the order of the source, an
`Add` before each, and the process ends when `main` returns.  What Go answers
with a panic, a send on a closed channel, a second `close` or a `Done` below
zero, is a step here that sets `crashed`.  The system is stated for any list
of processors and of numbers; `program` is the one of the source.

## Main results

* `Invariant.of_reaches` — no goroutine ever panics, and what has been dealt,
  held, sent and printed accounts for every number.
* `fanIn_prints_a_shuffle` — what has been printed is at every moment an
  interleaving of what the processors made of the numbers dealt to them, and
  when `main` has returned every number was dealt to one processor and its
  result printed once.
-/

namespace GoPrep.Ports.FanInAndOut

open GoPrep.Verified.GroupFold
open GoPrep.Verified.ThreadTable
open GoPrep.Verified.Transition

/-! ## Goroutines -/

/-- `generate`: in its loop or at its `close`, by what is left to send. -/
inductive GeneratePc
  | notStarted
  | sending
  | returned
  deriving DecidableEq, Repr

/-- A processor's goroutine. -/
inductive ProcessorPc
  /-- At `range input_channel`. -/
  | receiving
  /-- At the send of its result for `val`. -/
  | sending (val : Int64)
  /-- Printing and sleeping after the send. -/
  | resting
  /-- Out of the loop, before the deferred `Done`. -/
  | leaving
  | returned
  deriving DecidableEq, Repr

/-- The goroutine that closes the output channel. -/
inductive MonitorPc
  | notStarted
  /-- At `processor_wait_group.Wait()`. -/
  | waiting
  | closing
  | returned
  deriving DecidableEq, Repr

/-- `main`. -/
inductive MainPc
  /-- Before `go generate(input_channel)`. -/
  | generate
  /-- Before `Add(1)` for processor `i`, or past the last of them. -/
  | add (i : Nat)
  /-- Before the `go` statement of processor `i`. -/
  | spawn (i : Nat)
  /-- At `range output_channel`. -/
  | receiving
  | printing (val : Int64)
  | returned
  deriving DecidableEq, Repr

/-- The channels, the wait group and the goroutines, and the history of the
numbers received and of the numbers whose results were sent, each with the
processor that did it. -/
structure State where
  pending : List Int64
  generate : GeneratePc
  inputClosed : Bool
  processors : List ProcessorPc
  outputClosed : Bool
  wg : Nat
  monitor : MonitorPc
  main : MainPc
  crashed : Bool
  dealt : List (Nat × Int64)
  sent : List (Nat × Int64)
  printed : List Int64
  deriving DecidableEq, Repr

def State.initial (numbers : List Int64) : State :=
  { pending := numbers
    generate := .notStarted
    inputClosed := false
    processors := []
    outputClosed := false
    wg := 0
    monitor := .notStarted
    main := .generate
    crashed := false
    dealt := []
    sent := []
    printed := [] }

/-- What `processor1` sends for a value. -/
def processor1 (val : Int64) : Int64 := val * 2

/-- What `processor2` sends for a value. -/
def processor2 (val : Int64) : Int64 := val * val

/-- The processors `main` starts. -/
def program : List (Int64 → Int64) := [processor1, processor2]

namespace State

/-- The process still runs. -/
def Running (s : State) : Prop := s.crashed = false ∧ s.main ≠ .returned

instance (s : State) : Decidable s.Running := by
  unfold Running
  infer_instance

/-- Processor `p` moves to `pc`. -/
def goto (s : State) (p : Nat) (pc : ProcessorPc) : State :=
  { s with processors := s.processors.set p pc }

def crash (s : State) : State := { s with crashed := true }

/-- `generate` hands a value to processor `p`. -/
def deal (s : State) (p : Nat) (val : Int64) (rest : List Int64) : State :=
  { s.goto p (.sending val) with
    pending := rest
    dealt := s.dealt ++ [(p, val)] }

/-- Processor `p` hands its result for `val` to `main`. -/
def send (s : State) (p : Nat) (val result : Int64) : State :=
  { s.goto p .resting with
    main := .printing result
    sent := s.sent ++ [(p, val)] }

end State

inductive Action
  | main
  | generate
  | processor (p : Nat)
  | monitor
  /-- The rendezvous on `input_channel`, and the one on `output_channel`. -/
  | deal (p : Nat)
  | send (p : Nat)
  deriving DecidableEq, Repr

/-- One step of the process, `work` being its processors. -/
inductive Step (work : List (Int64 → Int64)) : State → Action → State → Prop
  | goGenerate (s : State) : s.Running → s.main = .generate →
      Step work s .main { s with generate := .sending, main := .add 0 }
  | add (s : State) (i : Nat) : s.Running → s.main = .add i →
      i < work.length →
      Step work s .main { s with wg := s.wg + 1, main := .spawn i }
  | goProcessor (s : State) (i : Nat) : s.Running → s.main = .spawn i →
      Step work s .main
        { s with
          processors := s.processors ++ [.receiving]
          main := .add (i + 1) }
  | goMonitor (s : State) : s.Running → s.main = .add work.length →
      Step work s .main { s with monitor := .waiting, main := .receiving }
  | deal (s : State) (p : Nat) (val : Int64) (rest : List Int64) :
      s.Running → s.generate = .sending → s.pending = val :: rest →
      s.inputClosed = false → s.processors[p]? = some .receiving →
      Step work s (.deal p) (s.deal p val rest)
  | sendOnClosedInput (s : State) (val : Int64) (rest : List Int64) :
      s.Running → s.generate = .sending → s.pending = val :: rest →
      s.inputClosed = true → Step work s .generate s.crash
  | closeInput (s : State) : s.Running → s.generate = .sending →
      s.pending = [] → s.inputClosed = false →
      Step work s .generate
        { s with inputClosed := true, generate := .returned }
  | closeClosedInput (s : State) : s.Running → s.generate = .sending →
      s.pending = [] → s.inputClosed = true →
      Step work s .generate s.crash
  | leaveRange (s : State) (p : Nat) : s.Running →
      s.processors[p]? = some .receiving → s.inputClosed = true →
      Step work s (.processor p) (s.goto p .leaving)
  | send (s : State) (p : Nat) (val : Int64) (f : Int64 → Int64) :
      s.Running → s.processors[p]? = some (.sending val) →
      work[p]? = some f → s.outputClosed = false → s.main = .receiving →
      Step work s (.send p) (s.send p val (f val))
  | sendOnClosedOutput (s : State) (p : Nat) (val : Int64) : s.Running →
      s.processors[p]? = some (.sending val) → s.outputClosed = true →
      Step work s (.processor p) s.crash
  | rested (s : State) (p : Nat) : s.Running →
      s.processors[p]? = some .resting →
      Step work s (.processor p) (s.goto p .receiving)
  | done (s : State) (p : Nat) : s.Running →
      s.processors[p]? = some .leaving → s.wg ≠ 0 →
      Step work s (.processor p) { s.goto p .returned with wg := s.wg - 1 }
  | negativeCounter (s : State) (p : Nat) : s.Running →
      s.processors[p]? = some .leaving → s.wg = 0 →
      Step work s (.processor p) s.crash
  | waited (s : State) : s.Running → s.monitor = .waiting → s.wg = 0 →
      Step work s .monitor { s with monitor := .closing }
  | closeOutput (s : State) : s.Running → s.monitor = .closing →
      s.outputClosed = false →
      Step work s .monitor
        { s with outputClosed := true, monitor := .returned }
  | closeClosedOutput (s : State) : s.Running → s.monitor = .closing →
      s.outputClosed = true → Step work s .monitor s.crash
  | print (s : State) (val : Int64) : s.Running → s.main = .printing val →
      Step work s .main
        { s with printed := s.printed ++ [val], main := .receiving }
  | leaveMain (s : State) : s.Running → s.main = .receiving →
      s.outputClosed = true → Step work s .main { s with main := .returned }

/-! ## The goroutines never panic -/

/-- The goroutine counts in the wait group. -/
def ProcessorPc.isLive : ProcessorPc → Bool
  | .returned => false
  | _ => true

/-- The goroutine has left its loop. -/
def ProcessorPc.hasLeft : ProcessorPc → Bool
  | .leaving => true
  | .returned => true
  | _ => false

/-- `main` is still starting goroutines. -/
def MainPc.isStarting : MainPc → Bool
  | .generate => true
  | .add _ => true
  | .spawn _ => true
  | _ => false

/-- The processors `main` has started, of `count` in all. -/
def MainPc.started (count : Nat) : MainPc → Nat
  | .generate => 0
  | .add i => i
  | .spawn i => i
  | _ => count

/-- The processors `main` has added to the wait group but not started. -/
def MainPc.added : MainPc → Nat
  | .spawn _ => 1
  | _ => 0

/-- The place of `main` among `count` processors. -/
def MainPc.InRange (count : Nat) : MainPc → Prop
  | .add i => i ≤ count
  | .spawn i => i < count
  | _ => True

/-- How far the goroutines are agrees with the channels and the wait
group. -/
structure Control (count : Nat) (s : State) : Prop where
  not_crashed : s.crashed = false
  inRange : s.main.InRange count
  started : s.processors.length = s.main.started count
  wg_eq : s.wg = s.processors.countP ProcessorPc.isLive + s.main.added
  generate_iff : s.generate = .notStarted ↔ s.main = .generate
  input_iff : s.inputClosed = true ↔ s.generate = .returned
  drained : s.generate = .returned → s.pending = []
  left : ∀ pc ∈ s.processors, pc.hasLeft = true → s.inputClosed = true
  monitor_iff : s.monitor = .notStarted ↔ s.main.isStarting = true
  output_iff : s.outputClosed = true ↔ s.monitor = .returned
  woken : s.monitor = .closing ∨ s.monitor = .returned → s.wg = 0
  returned : s.main = .returned → s.outputClosed = true

theorem control_initial (count : Nat) (numbers : List Int64) :
    Control count (State.initial numbers) := by
  constructor <;> simp [State.initial, MainPc.InRange, MainPc.started,
    MainPc.added, MainPc.isStarting]

namespace Control

variable {count : Nat} {s : State}

/-- A goroutine that has not left counts, so the monitor still waits. -/
theorem wg_ne_zero (h : Control count s) {p : Nat} {pc : ProcessorPc}
    (hp : s.processors[p]? = some pc) (hlive : pc.isLive = true) :
    s.wg ≠ 0 := by
  have hpos : 0 < s.processors.countP ProcessorPc.isLive :=
    List.countP_pos_iff.mpr ⟨pc, List.mem_of_getElem? hp, hlive⟩
  rw [h.wg_eq]
  omega

theorem outputClosed_false (h : Control count s) (hwg : s.wg ≠ 0) :
    s.outputClosed = false := by
  cases hclosed : s.outputClosed with
  | false => rfl
  | true => exact absurd (h.woken (.inr (h.output_iff.mp hclosed))) hwg

/-- A processor moves, and still counts. -/
theorem goto (h : Control count s) {p : Nat} {old new : ProcessorPc}
    (hp : s.processors[p]? = some old) (hold : old.isLive = true)
    (hnew : new.isLive = true)
    (hleft : new.hasLeft = true → s.inputClosed = true) :
    Control count (s.goto p new) :=
  { h with
    started := by
      rw [State.goto, List.length_set]
      exact h.started
    wg_eq := by
      rw [State.goto, countP_congr_map (map_set_of_eq _ hp
        (hnew.trans hold.symm))]
      exact h.wg_eq
    left := forall_mem_set h.left hleft }

theorem deal (h : Control count s) {p : Nat} {val : Int64}
    {rest : List Int64} (hsending : s.generate = .sending)
    (hp : s.processors[p]? = some .receiving) :
    Control count (s.deal p val rest) :=
  { h.goto hp rfl rfl (fun hleft => by cases hleft) with
    drained := fun hreturned => by cases hsending.symm.trans hreturned }

theorem send (h : Control count s) {p : Nat} {val result : Int64}
    (hp : s.processors[p]? = some (.sending val))
    (hmain : s.main = .receiving) :
    Control count (s.send p val result) := by
  have hgoto : Control count (s.goto p .resting) :=
    h.goto hp rfl rfl fun hleft => by cases hleft
  have hstarted := hgoto.started
  have hwg := hgoto.wg_eq
  have hgenerate := hgoto.generate_iff
  have hmonitor := hgoto.monitor_iff
  have hmain' : (s.goto p .resting).main = .receiving := hmain
  rw [hmain'] at hstarted hwg hgenerate hmonitor
  exact
    { hgoto with
      inRange := trivial
      started := hstarted
      wg_eq := hwg
      generate_iff := by simpa [State.send] using hgenerate
      monitor_iff := hmonitor
      returned := fun hreturned => by cases hreturned }

theorem done (h : Control count s) {p : Nat}
    (hp : s.processors[p]? = some .leaving) (hwg : s.wg ≠ 0) :
    Control count { s.goto p .returned with wg := s.wg - 1 } :=
  { h with
    started := by
      show (s.processors.set p .returned).length = _
      rw [List.length_set]
      exact h.started
    wg_eq := by
      have hcount := countP_set ProcessorPc.isLive hp .returned
      have hold := h.wg_eq
      simp only [ProcessorPc.isLive, State.goto, if_true,
        Bool.false_eq_true, if_false] at hcount ⊢
      omega
    left := forall_mem_set h.left fun _ =>
      h.left .leaving (List.mem_of_getElem? hp) rfl
    woken := fun hwoken => absurd (h.woken hwoken) hwg }

theorem step {work : List (Int64 → Int64)} {a : Action} {t : State}
    (h : Control work.length s) (hstep : Step work s a t) :
    Control work.length t := by
  have hgenerate := h.generate_iff
  have hmonitor := h.monitor_iff
  have hstarted := h.started
  have hwg := h.wg_eq
  have hrange := h.inRange
  cases hstep with
  | goGenerate _ hmain =>
      rw [hmain] at hmonitor hstarted hwg
      exact
        { h with
          inRange := Nat.zero_le _
          started := hstarted
          wg_eq := hwg
          generate_iff := by simp
          input_iff := by
            have hclosed := h.input_iff
            rw [hgenerate.mpr hmain] at hclosed
            simpa using hclosed
          drained := fun hreturned => by cases hreturned
          monitor_iff := hmonitor
          returned := fun hreturned => by cases hreturned }
  | add i _ hmain hlt =>
      rw [hmain] at hgenerate hmonitor hstarted hwg
      exact
        { h with
          inRange := hlt
          started := hstarted
          wg_eq := congrArg (· + 1) hwg
          generate_iff := by simpa using hgenerate
          monitor_iff := hmonitor
          woken := fun hwoken => by
            have hwaiting := hmonitor.mpr rfl
            rcases hwoken with hwoken | hwoken <;>
              cases hwaiting.symm.trans hwoken
          returned := fun hreturned => by cases hreturned }
  | goProcessor i _ hmain =>
      rw [hmain] at hgenerate hmonitor hstarted hwg hrange
      exact
        { h with
          inRange := hrange
          started := by
            rw [List.length_append, hstarted]
            rfl
          wg_eq := by
            rw [List.countP_append]
            exact hwg
          generate_iff := by simpa using hgenerate
          left := forall_mem_concat h.left fun hleft => by cases hleft
          monitor_iff := hmonitor
          returned := fun hreturned => by cases hreturned }
  | goMonitor _ hmain =>
      rw [hmain] at hgenerate hmonitor hstarted hwg
      exact
        { h with
          inRange := trivial
          started := hstarted
          wg_eq := hwg
          generate_iff := by simpa using hgenerate
          monitor_iff := by simp [MainPc.isStarting]
          output_iff := by
            have hclosed := h.output_iff
            rw [hmonitor.mpr rfl] at hclosed
            simpa using hclosed
          woken := fun hwoken => by
            rcases hwoken with hwoken | hwoken <;> cases hwoken
          returned := fun hreturned => by cases hreturned }
  | deal p val rest _ hsending _ _ hp => exact h.deal hsending hp
  | sendOnClosedInput val rest _ hsending _ hclosed =>
      cases hsending.symm.trans (h.input_iff.mp hclosed)
  | closeInput _ hsending hpending _ =>
      rw [hsending] at hgenerate
      exact
        { h with
          generate_iff := by simpa using hgenerate
          input_iff := by simp
          drained := fun _ => hpending
          left := fun _ _ _ => rfl }
  | closeClosedInput _ hsending _ hclosed =>
      cases hsending.symm.trans (h.input_iff.mp hclosed)
  | leaveRange p _ hp hclosed => exact h.goto hp rfl rfl fun _ => hclosed
  | send p val f _ hp _ _ hmain => exact h.send hp hmain
  | sendOnClosedOutput p val _ hp hclosed =>
      have hopen := h.outputClosed_false (h.wg_ne_zero hp rfl)
      cases hopen.symm.trans hclosed
  | rested p _ hp => exact h.goto hp rfl rfl fun hleft => by cases hleft
  | done p _ hp hwg => exact h.done hp hwg
  | negativeCounter p _ hp hwg => exact absurd hwg (h.wg_ne_zero hp rfl)
  | waited _ hwaiting hzero =>
      rw [hwaiting] at hmonitor
      exact
        { h with
          monitor_iff := by simpa using hmonitor
          output_iff := by
            have hclosed := h.output_iff
            rw [hwaiting] at hclosed
            simpa using hclosed
          woken := fun _ => hzero }
  | closeOutput _ hclosing _ =>
      rw [hclosing] at hmonitor
      exact
        { h with
          monitor_iff := by simpa using hmonitor
          output_iff := by simp
          woken := fun _ => h.woken (.inl hclosing)
          returned := fun _ => rfl }
  | closeClosedOutput _ hclosing hclosed =>
      cases hclosing.symm.trans (h.output_iff.mp hclosed)
  | print val _ hmain =>
      rw [hmain] at hgenerate hmonitor hstarted hwg
      exact
        { h with
          inRange := trivial
          started := hstarted
          wg_eq := hwg
          generate_iff := by simpa using hgenerate
          monitor_iff := hmonitor
          returned := fun hreturned => by cases hreturned }
  | leaveMain _ hmain hclosed =>
      rw [hmain] at hgenerate hmonitor hstarted hwg
      exact
        { h with
          inRange := trivial
          started := hstarted
          wg_eq := hwg
          generate_iff := by simpa using hgenerate
          monitor_iff := hmonitor
          returned := fun _ => hclosed }

end Control

/-! ## Every number is accounted for -/

/-- What the goroutine holds between its receive and its send. -/
def ProcessorPc.holding : ProcessorPc → List Int64
  | .sending val => [val]
  | _ => []

/-- What `main` has received and not yet printed. -/
def MainPc.holding : MainPc → List Int64
  | .printing val => [val]
  | _ => []

/-- What processor `p` holds. -/
def State.heldBy (s : State) (p : Nat) : List Int64 :=
  match s.processors[p]? with
  | some pc => pc.holding
  | none => []

/-- The result of an item, a number with its processor. -/
def resultOf (work : List (Int64 → Int64)) (item : Nat × Int64) :
    Option Int64 :=
  work[item.1]?.map fun f => f item.2

/-- Numbers are dealt in order; what a processor was dealt it has sent, but
for what it holds; what was sent is printed, but for what `main` holds. -/
structure Accounts (work : List (Int64 → Int64)) (numbers : List Int64)
    (s : State) : Prop where
  dealt_eq : s.dealt.map Prod.snd ++ s.pending = numbers
  handled : ∀ p, valuesAt s.sent p ++ s.heldBy p = valuesAt s.dealt p
  printed_eq : (s.printed ++ s.main.holding).map some =
    s.sent.map (resultOf work)

theorem accounts_initial (work : List (Int64 → Int64))
    (numbers : List Int64) : Accounts work numbers (State.initial numbers) := by
  constructor
  · rfl
  · intro p
    simp [State.initial, State.heldBy]
  · rfl

namespace Accounts

variable {work : List (Int64 → Int64)} {numbers : List Int64} {s : State}

theorem heldBy_set {p : Nat} {old : ProcessorPc}
    (hp : s.processors[p]? = some old) (new : ProcessorPc) (q : Nat) :
    (s.goto p new).heldBy q = if p = q then new.holding else s.heldBy q := by
  rw [State.heldBy, State.goto, getElem?_set_eq hp]
  by_cases hpq : p = q
  · rw [if_pos hpq, if_pos hpq]
  · rw [if_neg hpq, if_neg hpq]
    rfl

theorem heldBy_of_some {p : Nat} {pc : ProcessorPc}
    (hp : s.processors[p]? = some pc) : s.heldBy p = pc.holding := by
  rw [State.heldBy, hp]

/-- A processor moves with nothing in hand. -/
theorem goto (h : Accounts work numbers s) {p : Nat}
    {old new : ProcessorPc} (hp : s.processors[p]? = some old)
    (hsame : new.holding = old.holding) :
    Accounts work numbers (s.goto p new) :=
  { h with
    handled := by
      intro q
      rw [heldBy_set hp, hsame, ← heldBy_of_some hp]
      by_cases hpq : p = q
      · subst hpq
        rw [if_pos rfl]
        exact h.handled p
      · rw [if_neg hpq]
        exact h.handled q }

theorem deal (h : Accounts work numbers s) {p : Nat} {val : Int64}
    {rest : List Int64} (hpending : s.pending = val :: rest)
    (hp : s.processors[p]? = some .receiving) :
    Accounts work numbers (s.deal p val rest) := by
  constructor
  · show (s.dealt ++ [(p, val)]).map Prod.snd ++ rest = numbers
    rw [List.map_append, List.append_assoc, ← h.dealt_eq, hpending]
    rfl
  · intro q
    show valuesAt s.sent q ++ (s.goto p (.sending val)).heldBy q =
      valuesAt (s.dealt ++ [(p, val)]) q
    rw [heldBy_set hp, valuesAt_append, valuesAt_cons, ← h.handled q]
    by_cases hpq : p = q
    · subst hpq
      rw [if_pos rfl, if_pos rfl, heldBy_of_some hp]
      simp [ProcessorPc.holding]
    · rw [if_neg hpq, if_neg hpq, valuesAt_nil, List.append_nil]
  · exact h.printed_eq

theorem send (h : Accounts work numbers s) {p : Nat} {val : Int64}
    {f : Int64 → Int64} (hp : s.processors[p]? = some (.sending val))
    (hf : work[p]? = some f) (hmain : s.main = .receiving) :
    Accounts work numbers (s.send p val (f val)) := by
  constructor
  · exact h.dealt_eq
  · intro q
    show valuesAt (s.sent ++ [(p, val)]) q ++ (s.goto p .resting).heldBy q =
      valuesAt s.dealt q
    rw [heldBy_set hp, valuesAt_append, valuesAt_cons, ← h.handled q]
    by_cases hpq : p = q
    · subst hpq
      rw [if_pos rfl, if_pos rfl, heldBy_of_some hp, List.append_assoc]
      rfl
    · rw [if_neg hpq, if_neg hpq, valuesAt_nil, List.append_nil]
  · have hprinted := h.printed_eq
    rw [hmain] at hprinted
    show (s.printed ++ [f val]).map some =
      (s.sent ++ [(p, val)]).map (resultOf work)
    have hresult : resultOf work (p, val) = some (f val) := by
      rw [resultOf, hf]
      rfl
    have hnone : MainPc.receiving.holding = [] := rfl
    rw [hnone, List.append_nil] at hprinted
    rw [List.map_append, List.map_append, hprinted, List.map_singleton,
      List.map_singleton, hresult]

/-- `main` moves with nothing in hand. -/
theorem printed_of_move (h : Accounts work numbers s) {old : MainPc}
    (hmain : s.main = old) (hold : old.holding = []) {new : MainPc}
    (hnew : new.holding = []) :
    (s.printed ++ new.holding).map some = s.sent.map (resultOf work) := by
  rw [hnew, ← hold, ← hmain]
  exact h.printed_eq

/-- A goroutine that starts holds nothing. -/
theorem heldBy_start (s : State) (new : MainPc) (p : Nat) :
    State.heldBy
      { s with processors := s.processors ++ [.receiving], main := new } p =
      s.heldBy p := by
  show (match (s.processors ++ [ProcessorPc.receiving])[p]? with
    | some pc => pc.holding
    | none => []) = s.heldBy p
  rw [State.heldBy]
  cases hp : s.processors[p]? with
  | some pc =>
      rw [List.getElem?_append_left (lt_length_of_getElem? hp), hp]
  | none =>
      cases hnew : (s.processors ++ [ProcessorPc.receiving])[p]? with
      | none => rfl
      | some pc =>
          rcases getElem?_concat_eq_some.mp hnew with hold | ⟨_, rfl⟩
          · cases hp.symm.trans hold
          · rfl

theorem step {a : Action} {t : State} (h : Accounts work numbers s)
    (hstep : Step work s a t) : Accounts work numbers t := by
  cases hstep with
  | goGenerate _ hmain =>
      exact { h with printed_eq := h.printed_of_move hmain rfl rfl }
  | add i _ hmain _ =>
      exact { h with printed_eq := h.printed_of_move hmain rfl rfl }
  | goProcessor i _ hmain =>
      exact
        { h with
          handled := fun p => by
            rw [heldBy_start]
            exact h.handled p
          printed_eq := h.printed_of_move hmain rfl rfl }
  | goMonitor _ hmain =>
      exact { h with printed_eq := h.printed_of_move hmain rfl rfl }
  | deal p val rest _ _ hpending _ hp => exact h.deal hpending hp
  | leaveRange p _ hp _ => exact h.goto hp rfl
  | send p val f _ hp hf _ hmain => exact h.send hp hf hmain
  | rested p _ hp => exact h.goto hp rfl
  | done p _ hp _ =>
      have hgoto : Accounts work numbers (s.goto p .returned) :=
        h.goto hp rfl
      exact { hgoto with }
  | print val _ hmain =>
      have hprinted := h.printed_eq
      rw [hmain] at hprinted
      exact
        { h with
          printed_eq := by
            show (s.printed ++ [val] ++ []).map some = _
            rw [List.append_nil]
            exact hprinted }
  | leaveMain _ hmain _ =>
      exact { h with printed_eq := h.printed_of_move hmain rfl rfl }
  | _ => exact { h with }

end Accounts

structure Invariant (work : List (Int64 → Int64)) (numbers : List Int64)
    (s : State) : Prop where
  control : Control work.length s
  accounts : Accounts work numbers s

namespace Invariant

variable {work : List (Int64 → Int64)} {numbers : List Int64} {s : State}

theorem initial (work : List (Int64 → Int64)) (numbers : List Int64) :
    Invariant work numbers (State.initial numbers) :=
  ⟨control_initial _ _, accounts_initial _ _⟩

theorem step {a : Action} {t : State} (h : Invariant work numbers s)
    (hstep : Step work s a t) : Invariant work numbers t :=
  ⟨h.control.step hstep, h.accounts.step hstep⟩

theorem of_reaches
    (h : Reaches (Step work) (State.initial numbers) s) :
    Invariant work numbers s :=
  h.invariant (fun _ _ _ hs hstep => hs.step hstep) (initial work numbers)

/-- Once `main` has returned every processor has, and `generate` too. -/
theorem all_returned (h : Invariant work numbers s)
    (hmain : s.main = .returned) : ∀ pc ∈ s.processors, pc = .returned := by
  have hclosed := h.control.returned hmain
  have hzero := h.control.woken (.inr (h.control.output_iff.mp hclosed))
  have hwg := h.control.wg_eq
  have hcount : s.processors.countP ProcessorPc.isLive = 0 := by omega
  intro pc hpc
  have hdead := List.countP_eq_zero.mp hcount pc hpc
  cases pc with
  | returned => rfl
  | _ => exact absurd rfl hdead

end Invariant

/-! ## What is printed -/

/-- `main` has returned, and the output is an interleaving of what the
processors made of the numbers dealt to them. -/
structure Finished (work : List (Int64 → Int64)) (numbers : List Int64)
    (s : State) : Prop where
  returned : s.main = .returned
  not_crashed : s.crashed = false
  dealt_eq : s.dealt.map Prod.snd = numbers
  shuffled : IsShuffle s.dealt s.sent
  printed_eq : s.printed.map some = s.sent.map (resultOf work)

/-- What holds at every moment of a run. -/
structure PrintsShuffle (work : List (Int64 → Int64)) (numbers : List Int64)
    (s : State) : Prop where
  not_crashed : s.crashed = false
  /-- Numbers are dealt in order, each to one processor. -/
  dealt_prefix : s.dealt.map Prod.snd <+: numbers
  /-- A processor sends the results of its numbers in order. -/
  sent_prefix : ∀ p, valuesAt s.sent p <+: valuesAt s.dealt p
  printed_prefix : s.printed.map some <+: s.sent.map (resultOf work)
  finished : s.main = .returned → Finished work numbers s

theorem Invariant.finished {work : List (Int64 → Int64)}
    {numbers : List Int64} {s : State} (h : Invariant work numbers s)
    (hwork : work ≠ []) (hmain : s.main = .returned) :
    Finished work numbers s := by
  have hall := h.all_returned hmain
  have hheld : ∀ p, s.heldBy p = [] := fun p => by
    rw [State.heldBy]
    cases hp : s.processors[p]? with
    | none => rfl
    | some pc => rw [hall pc (List.mem_of_getElem? hp)]; rfl
  have hstarted := h.control.started
  rw [hmain] at hstarted
  have hpending : s.pending = [] := by
    cases hprocessors : s.processors with
    | nil =>
        rw [hprocessors] at hstarted
        exact absurd (List.length_eq_zero_iff.mp hstarted.symm) hwork
    | cons pc rest =>
        have hmem : pc ∈ s.processors := by simp [hprocessors]
        have hleft : pc.hasLeft = true := by rw [hall pc hmem]; rfl
        exact h.control.drained
          (h.control.input_iff.mp (h.control.left pc hmem hleft))
  have hdealt := h.accounts.dealt_eq
  have hprinted := h.accounts.printed_eq
  rw [hpending, List.append_nil] at hdealt
  rw [hmain, MainPc.holding, List.append_nil] at hprinted
  · refine ⟨hmain, h.control.not_crashed, hdealt, fun p => ?_, hprinted⟩
    have hhandled := h.accounts.handled p
    rwa [hheld p, List.append_nil] at hhandled
  · intro val hval
    cases hval

/-- **The fan-in loses, repeats and reorders nothing.**  The processors of
the source are two; the numbers may be any. -/
theorem fanIn_prints_a_shuffle {numbers : List Int64} {s : State}
    (h : Reaches (Step program) (State.initial numbers) s) :
    PrintsShuffle program numbers s := by
  have hinv := Invariant.of_reaches h
  have hprinted := hinv.accounts.printed_eq
  rw [List.map_append] at hprinted
  exact
    { not_crashed := hinv.control.not_crashed
      dealt_prefix := ⟨_, hinv.accounts.dealt_eq⟩
      sent_prefix := fun p => ⟨_, hinv.accounts.handled p⟩
      printed_prefix := ⟨_, hprinted⟩
      finished := hinv.finished (List.cons_ne_nil _ _) }

/-- One number, which the second processor squares. -/
theorem fanIn_prints_a_shuffle_one :
    ∃ s, Reaches (Step program) (State.initial [3]) s ∧
      s.main = .returned ∧ s.printed = [9] ∧
      PrintsShuffle program [3] s := by
  have hrun : Reaches (Step program) (State.initial [3]) _ :=
    (((((((((((((((((Reaches.refl.tail
      (.goGenerate _ (by decide) rfl)).tail
      (.add _ 0 (by decide) rfl (by decide))).tail
      (.goProcessor _ 0 (by decide) rfl)).tail
      (.add _ 1 (by decide) rfl (by decide))).tail
      (.goProcessor _ 1 (by decide) rfl)).tail
      (.goMonitor _ (by decide) rfl)).tail
      (.deal _ 1 3 [] (by decide) rfl rfl rfl rfl)).tail
      (.closeInput _ (by decide) rfl rfl rfl)).tail
      (.leaveRange _ 0 (by decide) rfl rfl)).tail
      (.send _ 1 3 processor2 (by decide) rfl rfl rfl rfl)).tail
      (.done _ 0 (by decide) rfl (by decide))).tail
      (.print _ 9 (by decide) rfl)).tail
      (.rested _ 1 (by decide) rfl)).tail
      (.leaveRange _ 1 (by decide) rfl rfl)).tail
      (.done _ 1 (by decide) rfl (by decide))).tail
      (.waited _ (by decide) rfl rfl)).tail
      (.closeOutput _ (by decide) rfl rfl)).tail
      (.leaveMain _ (by decide) rfl rfl)
  exact ⟨_, hrun, rfl, rfl, fanIn_prints_a_shuffle hrun⟩

end GoPrep.Ports.FanInAndOut
