import GoPrep.Ports.BuildASemaphore
import GoPrep.Verified.Inevitable

/-!
# The workers of the semaphore program

`main` of `src/go-concurrency-practice/build-a-semaphore/main.go` makes a
semaphore of the capacity it was given, starts its workers one after another
and waits for them; a worker acquires, works, releases and counts itself off
the wait group.  A `Done` below zero, which panics, is a step here that sets
`crashed`.

## Main results

* `Invariant.step` — the tokens in the channel are the workers between
  `Acquire` and `Release`, and the wait group counts those not done.
* `main_returns_iff` — at most `N` workers work at a time; `main` returns in
  every run when `N` is at least one and in none when it is zero, and `make`
  panics when it is negative.
-/

namespace GoPrep.Ports.BuildASemaphore

open GoPrep.Verified.ThreadTable
open GoPrep.Verified.Transition

/-! ## `main` and its workers -/

/-- A worker's goroutine, in `work`. -/
inductive WorkerPc
  /-- Printing, and at `sem.Acquire()`. -/
  | acquiring
  /-- Printing and sleeping. -/
  | working
  /-- At `sem.Release()`. -/
  | releasing
  /-- Before the deferred `wg.Done()`. -/
  | leaving
  | returned
  deriving DecidableEq, Repr

inductive MainPc
  /-- At `wg.Add(1)` for worker `i`, or past the last of them. -/
  | add (i : Nat)
  /-- At the `go` statement of worker `i`. -/
  | spawn (i : Nat)
  /-- At `wg.Wait()`. -/
  | waiting
  | returned
  deriving DecidableEq, Repr

structure State where
  sem : Semaphore
  wg : Nat
  workers : List WorkerPc
  main : MainPc
  crashed : Bool
  deriving DecidableEq, Repr

/-- `main` with its semaphore made. -/
def State.initial (sem : Semaphore) : State :=
  { sem := sem, wg := 0, workers := [], main := .add 0, crashed := false }

/-- The workers `main` starts. -/
def workerCount : Nat := 20

namespace State

/-- The process still runs. -/
def Running (s : State) : Prop := s.crashed = false ∧ s.main ≠ .returned

instance (s : State) : Decidable s.Running := by
  unfold Running
  infer_instance

/-- Worker `w` moves to `pc`. -/
def goto (s : State) (w : Nat) (pc : WorkerPc) : State :=
  { s with workers := s.workers.set w pc }

end State

inductive Action
  | main
  | worker (w : Nat)
  | rendezvous (w v : Nat)
  deriving DecidableEq, Repr

/-- One step of the process, which starts `count` workers. -/
inductive Step (count : Nat) : State → Action → State → Prop
  | add (s : State) (i : Nat) : s.Running → s.main = .add i → i < count →
      Step count s .main { s with wg := s.wg + 1, main := .spawn i }
  | goWorker (s : State) (i : Nat) : s.Running → s.main = .spawn i →
      Step count s .main
        { s with
          workers := s.workers ++ [.acquiring]
          main := .add (i + 1) }
  | toWait (s : State) : s.Running → s.main = .add count →
      Step count s .main { s with main := .waiting }
  | waited (s : State) : s.Running → s.main = .waiting → s.wg = 0 →
      Step count s .main { s with main := .returned }
  | acquire (s : State) (w : Nat) (sem' : Semaphore) : s.Running →
      s.workers[w]? = some .acquiring → s.sem.acquire = some sem' →
      Step count s (.worker w) { s.goto w .working with sem := sem' }
  | worked (s : State) (w : Nat) : s.Running →
      s.workers[w]? = some .working →
      Step count s (.worker w) (s.goto w .releasing)
  | release (s : State) (w : Nat) (sem' : Semaphore) : s.Running →
      s.workers[w]? = some .releasing → s.sem.release = some sem' →
      Step count s (.worker w) { s.goto w .leaving with sem := sem' }
  /-- A send meets a receive on a channel without a buffer. -/
  | rendezvous (s : State) (w v : Nat) : s.Running → s.sem.capacity = 0 →
      s.workers[w]? = some .acquiring → s.workers[v]? = some .releasing →
      Step count s (.rendezvous w v) ((s.goto w .working).goto v .leaving)
  | done (s : State) (w : Nat) : s.Running →
      s.workers[w]? = some .leaving → s.wg ≠ 0 →
      Step count s (.worker w) { s.goto w .returned with wg := s.wg - 1 }
  | negativeCounter (s : State) (w : Nat) : s.Running →
      s.workers[w]? = some .leaving → s.wg = 0 →
      Step count s (.worker w) { s with crashed := true }

/-- The worker has a permit. -/
def WorkerPc.holds : WorkerPc → Bool
  | .working => true
  | .releasing => true
  | _ => false

/-- The worker counts in the wait group. -/
def WorkerPc.isLive : WorkerPc → Bool
  | .returned => false
  | _ => true

/-- The workers `main` has started, of `count` in all. -/
def MainPc.started (count : Nat) : MainPc → Nat
  | .add i => i
  | .spawn i => i
  | _ => count

/-- The workers `main` has added to the wait group but not started. -/
def MainPc.added : MainPc → Nat
  | .spawn _ => 1
  | _ => 0

/-- The place of `main` among `count` workers. -/
def MainPc.InRange (count : Nat) : MainPc → Prop
  | .add i => i ≤ count
  | .spawn i => i < count
  | _ => True

structure Invariant (N count : Nat) (s : State) : Prop where
  not_crashed : s.crashed = false
  capacity_eq : s.sem.capacity = N
  tokens_eq : s.sem.tokens = s.workers.countP WorkerPc.holds
  inRange : s.main.InRange count
  started : s.workers.length = s.main.started count
  wg_eq : s.wg = s.workers.countP WorkerPc.isLive + s.main.added
  returned : s.main = .returned → s.wg = 0

namespace Invariant

variable {N count : Nat} {s t : State}

theorem initial {sem : Semaphore} (htokens : sem.tokens = 0) (count : Nat) :
    Invariant sem.capacity count (State.initial sem) := by
  constructor
  · rfl
  · rfl
  · exact htokens
  · exact Nat.zero_le count
  · rfl
  · rfl
  · intro hreturned
    cases hreturned

theorem wg_ne_zero (h : Invariant N count s) {w : Nat} {pc : WorkerPc}
    (hw : s.workers[w]? = some pc) (hlive : pc.isLive = true) :
    s.wg ≠ 0 := by
  have hpos : 0 < s.workers.countP WorkerPc.isLive :=
    List.countP_pos_iff.mpr ⟨pc, List.mem_of_getElem? hw, hlive⟩
  rw [h.wg_eq]
  omega

/-- A worker that still counts moves, and the semaphore with it. -/
theorem move (h : Invariant N count s) {w : Nat} {old new : WorkerPc}
    (hw : s.workers[w]? = some old) (hold : old.isLive = true)
    (hnew : new.isLive = true) {sem' : Semaphore}
    (hcapacity : sem'.capacity = s.sem.capacity)
    (htokens : sem'.tokens + (if old.holds then 1 else 0) =
      s.sem.tokens + (if new.holds then 1 else 0)) :
    Invariant N count { s.goto w new with sem := sem' } :=
  { h with
    capacity_eq := hcapacity.trans h.capacity_eq
    tokens_eq := by
      have hcount := countP_set WorkerPc.holds hw new
      have hsame := h.tokens_eq
      show sem'.tokens = (s.workers.set w new).countP WorkerPc.holds
      omega
    started := by
      show (s.workers.set w new).length = _
      rw [List.length_set]
      exact h.started
    wg_eq := by
      show s.wg = (s.workers.set w new).countP WorkerPc.isLive + _
      rw [countP_congr_map (map_set_of_eq _ hw (hnew.trans hold.symm))]
      exact h.wg_eq }

theorem done (h : Invariant N count s) {w : Nat}
    (hw : s.workers[w]? = some .leaving) (hwg : s.wg ≠ 0) :
    Invariant N count { s.goto w .returned with wg := s.wg - 1 } :=
  { h with
    tokens_eq := by
      show _ = (s.workers.set w .returned).countP WorkerPc.holds
      rw [countP_congr_map (map_set_of_eq WorkerPc.holds hw
        (rfl : WorkerPc.holds .returned = WorkerPc.holds .leaving))]
      exact h.tokens_eq
    started := by
      show (s.workers.set w .returned).length = _
      rw [List.length_set]
      exact h.started
    wg_eq := by
      have hcount := countP_set WorkerPc.isLive hw .returned
      have hold := h.wg_eq
      simp only [WorkerPc.isLive, State.goto, if_true, Bool.false_eq_true,
        if_false] at hcount ⊢
      omega
    returned := fun hreturned => absurd (h.returned hreturned) hwg }

/-- `main` moves on between two workers. -/
theorem main (h : Invariant N count s) {new : MainPc}
    (hrange : new.InRange count)
    (hstarted : s.workers.length = new.started count)
    (hwg : s.wg = s.workers.countP WorkerPc.isLive + new.added)
    (hreturned : new = .returned → s.wg = 0) :
    Invariant N count { s with main := new } :=
  { h with
    inRange := hrange
    started := hstarted
    wg_eq := hwg
    returned := hreturned }

theorem step {a : Action} (h : Invariant N count s)
    (hstep : Step count s a t) : Invariant N count t := by
  have hrange := h.inRange
  have hstarted := h.started
  have hwg := h.wg_eq
  cases hstep with
  | add i _ hmain hlt =>
      rw [hmain] at hstarted hwg
      exact
        { h with
          inRange := hlt
          started := hstarted
          wg_eq := congrArg (· + 1) hwg
          returned := fun hreturned => by cases hreturned }
  | goWorker i _ hmain =>
      rw [hmain] at hrange hstarted hwg
      exact
        { h with
          tokens_eq := by
            rw [List.countP_append]
            exact h.tokens_eq
          inRange := hrange
          started := by
            rw [List.length_append, hstarted]
            rfl
          wg_eq := by
            rw [List.countP_append]
            exact hwg
          returned := fun hreturned => by cases hreturned }
  | toWait _ hmain =>
      rw [hmain] at hstarted hwg
      exact h.main trivial hstarted hwg fun hreturned => by cases hreturned
  | waited _ hmain hzero =>
      rw [hmain] at hstarted hwg
      exact h.main trivial hstarted hwg fun _ => hzero
  | acquire w sem' _ hw hacquire =>
      obtain ⟨htokens, hcapacity⟩ := Semaphore.acquire_eq_some hacquire
      exact h.move hw rfl rfl hcapacity htokens
  | worked w _ hw => exact h.move hw rfl rfl rfl rfl
  | release w sem' _ hw hrelease =>
      obtain ⟨htokens, hcapacity⟩ := Semaphore.release_eq_some hrelease
      exact h.move hw rfl rfl hcapacity htokens.symm
  | rendezvous w v _ hzero hw hv =>
      have hpos : 0 < s.workers.countP WorkerPc.holds :=
        List.countP_pos_iff.mpr ⟨_, List.mem_of_getElem? hv, rfl⟩
      have hfits := s.sem.fits
      have htokens := h.tokens_eq
      omega
  | done w _ hw hne => exact h.done hw hne
  | negativeCounter w _ hw hzero => exact absurd hzero (h.wg_ne_zero hw rfl)

end Invariant

/-! ## Whether `main` returns -/

def WorkerPc.rank : WorkerPc → Nat
  | .acquiring => 4
  | .working => 3
  | .releasing => 2
  | .leaving => 1
  | .returned => 0

def MainPc.rank (count : Nat) : MainPc → Nat
  | .add i => 6 * (count - i) + 2
  | .spawn i => 6 * (count - i) + 1
  | .waiting => 1
  | .returned => 0

/-- A bound on the steps the process has still to take. -/
def State.rank (count : Nat) (s : State) : Nat :=
  (s.workers.map WorkerPc.rank).sum + s.main.rank count

theorem rank_step {N count : Nat} {s t : State} {a : Action}
    (h : Invariant N count s) (hstep : Step count s a t) :
    t.rank count < s.rank count := by
  cases hstep with
  | add i _ hmain hlt =>
      simp only [State.rank, hmain, MainPc.rank]
      omega
  | goWorker i _ hmain =>
      have hrange := h.inRange
      rw [hmain] at hrange
      have hlt : i < count := hrange
      simp only [State.rank, hmain, MainPc.rank, List.map_append,
        List.sum_append, List.map_singleton, List.sum_singleton,
        WorkerPc.rank]
      omega
  | toWait _ hmain =>
      simp only [State.rank, hmain, MainPc.rank]
      omega
  | waited _ hmain _ =>
      simp only [State.rank, hmain, MainPc.rank]
      omega
  | acquire w sem' _ hw _ =>
      have hsum := sum_map_set WorkerPc.rank hw .working
      simp only [State.rank, State.goto, WorkerPc.rank] at hsum ⊢
      omega
  | worked w _ hw =>
      have hsum := sum_map_set WorkerPc.rank hw .releasing
      simp only [State.rank, State.goto, WorkerPc.rank] at hsum ⊢
      omega
  | release w sem' _ hw _ =>
      have hsum := sum_map_set WorkerPc.rank hw .leaving
      simp only [State.rank, State.goto, WorkerPc.rank] at hsum ⊢
      omega
  | rendezvous w v _ hzero hw hv =>
      have hpos : 0 < s.workers.countP WorkerPc.holds :=
        List.countP_pos_iff.mpr ⟨_, List.mem_of_getElem? hv, rfl⟩
      have hfits := s.sem.fits
      have htokens := h.tokens_eq
      omega
  | done w _ hw _ =>
      have hsum := sum_map_set WorkerPc.rank hw .returned
      simp only [State.rank, State.goto, WorkerPc.rank] at hsum ⊢
      omega
  | negativeCounter w _ hw hzero => exact absurd hzero (h.wg_ne_zero hw rfl)

namespace Invariant

variable {N count : Nat} {s : State}

/-- A worker past its `Acquire` can go on. -/
theorem progress_of_worker (h : Invariant N count s) (hrunning : s.Running)
    {w : Nat} {pc : WorkerPc} (hw : s.workers[w]? = some pc)
    (hlive : pc.isLive = true) (hacquired : pc ≠ .acquiring) :
    ∃ a t, Step count s a t := by
  have hwg := h.wg_ne_zero hw hlive
  cases pc with
  | acquiring => exact absurd rfl hacquired
  | working => exact ⟨_, _, .worked s w hrunning hw⟩
  | releasing =>
      have hpos : 0 < s.workers.countP WorkerPc.holds :=
        List.countP_pos_iff.mpr ⟨_, List.mem_of_getElem? hw, rfl⟩
      obtain ⟨sem', hrelease⟩ :=
        Semaphore.exists_release (h.tokens_eq ▸ hpos)
      exact ⟨_, _, .release s w sem' hrunning hw hrelease⟩
  | leaving => exact ⟨_, _, .done s w hrunning hw hwg⟩
  | returned => cases hlive

/-- **With a permit there is no deadlock.** -/
theorem progress (h : Invariant N count s) (hN : 0 < N)
    (hmain : s.main ≠ .returned) : ∃ a t, Step count s a t := by
  have hrunning : s.Running := ⟨h.not_crashed, hmain⟩
  cases hpc : s.main with
  | add i =>
      have hrange := h.inRange
      rw [hpc] at hrange
      rcases Nat.lt_or_eq_of_le hrange with hlt | rfl
      · exact ⟨_, _, .add s i hrunning hpc hlt⟩
      · exact ⟨_, _, .toWait s hrunning hpc⟩
  | spawn i => exact ⟨_, _, .goWorker s i hrunning hpc⟩
  | returned => exact absurd hpc hmain
  | waiting =>
      by_cases hzero : s.wg = 0
      · exact ⟨_, _, .waited s hrunning hpc hzero⟩
      · have hwg := h.wg_eq
        rw [hpc] at hwg
        have hlive : 0 < s.workers.countP WorkerPc.isLive := by
          simp only [MainPc.added] at hwg
          omega
        obtain ⟨pc, hmem, hpc⟩ := List.countP_pos_iff.mp hlive
        obtain ⟨w, hw⟩ := List.mem_iff_getElem?.mp hmem
        by_cases hacquiring : pc = .acquiring
        · -- Either a permit is free or some worker that has one can go on.
          subst hacquiring
          by_cases hfree : s.sem.tokens < s.sem.capacity
          · obtain ⟨sem', hacquire⟩ := Semaphore.exists_acquire hfree
            exact ⟨_, _, .acquire s w sem' hrunning hw hacquire⟩
          · have hcapacity := h.capacity_eq
            have htokens := h.tokens_eq
            have hholds : 0 < s.workers.countP WorkerPc.holds := by omega
            obtain ⟨other, hother, hheld⟩ := List.countP_pos_iff.mp hholds
            obtain ⟨v, hv⟩ := List.mem_iff_getElem?.mp hother
            refine h.progress_of_worker hrunning hv ?_ ?_
            · cases other <;> first | rfl | cases hheld
            · rintro rfl
              cases hheld
        · exact h.progress_of_worker hrunning hw hpc hacquiring

/-- Without a permit no worker gets past its `Acquire`. -/
theorem all_acquiring (h : Invariant 0 count s)
    (hall : ∀ pc ∈ s.workers, pc = WorkerPc.acquiring) {a : Action}
    {t : State} (hstep : Step count s a t) :
    ∀ pc ∈ t.workers, pc = WorkerPc.acquiring := by
  have hnone : ∀ {w : Nat} {pc : WorkerPc}, s.workers[w]? = some pc →
      pc = .acquiring :=
    fun hw => hall _ (List.mem_of_getElem? hw)
  cases hstep with
  | goWorker i _ _ => exact forall_mem_concat hall rfl
  | acquire w sem' _ _ hacquire =>
      have hcapacity := h.capacity_eq
      obtain ⟨htokens, hsame⟩ := Semaphore.acquire_eq_some hacquire
      have hfits := sem'.fits
      omega
  | worked w _ hw => cases hnone hw
  | release w sem' _ hw _ => cases hnone hw
  | rendezvous w v _ _ _ hv => cases hnone hv
  | done w _ hw _ => cases hnone hw
  | _ => exact hall

end Invariant

/-- `main` has returned after every worker, and every permit is back. -/
structure Finished (count : Nat) (s : State) : Prop where
  returned : s.main = .returned
  not_crashed : s.crashed = false
  workers_eq : s.workers = List.replicate count .returned
  tokens_eq : s.sem.tokens = 0

theorem Invariant.finished {N count : Nat} {s : State}
    (h : Invariant N count s) (hmain : s.main = .returned) :
    Finished count s := by
  have hwg := h.wg_eq
  have hstarted := h.started
  rw [h.returned hmain, hmain] at hwg
  rw [hmain] at hstarted
  have hcount : s.workers.countP WorkerPc.isLive = 0 := by omega
  have hall : ∀ pc ∈ s.workers, pc = .returned := by
    intro pc hpc
    have hdead := List.countP_eq_zero.mp hcount pc hpc
    cases pc with
    | returned => rfl
    | _ => exact absurd rfl hdead
  have hworkers : s.workers = List.replicate count .returned :=
    List.eq_replicate_iff.mpr ⟨hstarted, hall⟩
  refine ⟨hmain, h.not_crashed, hworkers, ?_⟩
  rw [h.tokens_eq, hworkers, List.countP_replicate]
  rfl

/-- **At most `N` workers work at a time, and `main` returns in every run
when `N` is at least one and in none when it is zero.**  The workers of the
source are `workerCount`; any number but zero will do. -/
theorem main_returns_iff (N : Int) (count : Nat) (hcount : 0 < count) :
    (newSemaphore N = .error .makeChanSize ↔ N < 0) ∧
      ∀ sem, newSemaphore N = .ok sem →
        (∀ s, Reaches (Step count) (State.initial sem) s →
          s.crashed = false ∧
            s.workers.countP WorkerPc.holds ≤ N.toNat) ∧
        (1 ≤ N → Inevitable (Step count) (Finished count)
          (State.initial sem)) ∧
        (N = 0 → ∀ s, Reaches (Step count) (State.initial sem) s →
          s.main ≠ .returned) := by
  constructor
  · rw [newSemaphore]
    by_cases hneg : N < 0
    · simp [hneg]
    · simp [hneg]
  intro sem hnew
  have hsem : sem.capacity = N.toNat ∧ sem.tokens = 0 ∧ 0 ≤ N := by
    unfold newSemaphore at hnew
    split at hnew
    · cases hnew
    next hneg =>
      cases hnew
      exact ⟨rfl, rfl, Int.not_lt.mp hneg⟩
  obtain ⟨hcapacity, hzero, hnonneg⟩ := hsem
  have hinitial : Invariant N.toNat count (State.initial sem) :=
    hcapacity ▸ Invariant.initial hzero count
  have hinv : ∀ {s}, Reaches (Step count) (State.initial sem) s →
      Invariant N.toNat count s := fun h =>
    h.invariant (fun _ _ _ hs hst => hs.step hst) hinitial
  refine ⟨fun s h => ⟨(hinv h).not_crashed, ?_⟩, fun hone => ?_,
    fun hN s h hmain => ?_⟩
  · have hfits := s.sem.fits
    have hcap := (hinv h).capacity_eq
    have htokens := (hinv h).tokens_eq
    omega
  · refine .of_rank (State.rank count) (fun _ _ _ hs hst => hs.step hst)
      (fun _ _ _ hs hst => rank_step hs hst) (fun s hs hrest => ?_) hinitial
    exact hs.progress (by omega) fun hmain => hrest (hs.finished hmain)
  · have hboth : Invariant 0 count s ∧ ∀ pc ∈ s.workers, pc = .acquiring := by
      refine h.invariant
        (I := fun s => Invariant 0 count s ∧
          ∀ pc ∈ s.workers, pc = .acquiring) ?_ ?_
      · rintro s a t ⟨hs, hall⟩ hst
        exact ⟨hs.step hst, hs.all_acquiring hall hst⟩
      · subst hN
        exact ⟨hinitial, fun pc hpc => absurd hpc List.not_mem_nil⟩
    have hworkers := (hboth.1.finished hmain).workers_eq
    have hmem : WorkerPc.returned ∈ s.workers := by
      rw [hworkers]
      exact List.mem_replicate.mpr ⟨by omega, rfl⟩
    cases hboth.2 _ hmem

/-- The twenty workers of the source, three at a time. -/
theorem main_returns_iff_three :
    ∃ sem, newSemaphore 3 = .ok sem ∧
      Inevitable (Step workerCount) (Finished workerCount)
        (State.initial sem) :=
  ⟨_, rfl, ((main_returns_iff 3 workerCount (by decide)).2 _ rfl).2.1
    (by decide)⟩

end GoPrep.Ports.BuildASemaphore
