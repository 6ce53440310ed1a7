import GoPrep.Ports.ThreadPoolWakeups
import GoPrep.Verified.Inevitable

/-!
# The thread pool settles

Leave the pool alone: no call begins and nobody wakes spuriously.  This file
shows that the threads inside then come to rest, that they do so with
everything done, and gives the rank that every move lowers.

A sleeper that is woken may look and sleep again, so a move that wakes has to
pay for it: a push for the worker it may wake, a dequeue for the caller it may
wake, a shutdown call for everybody.

## Main results

* `rank_move` — every move of a thread lowers the rank.
* `settled_of_stuck` — threads that cannot move have nothing left to do.
* `pool_settles` — from every reachable state, without a shutdown or in the
  middle of one, every `pushTask` and every shutdown call returns or throws
  and every future gets a value or is broken.
-/

namespace GoPrep.Ports.ThreadPool

open GoPrep.Verified.ThreadTable
open GoPrep.Verified.Transition

/-- A step of a thread already inside, not woken spuriously. -/
def OwnStep (s : State) (a : Action) (t : State) : Prop :=
  Step s a t ∧ ∃ c, a = .move c

/-! ## The rank -/

/-- A bound on the moves the thread has still to make and on what it makes
others do, in a pool of `numThreads` workers and `count` threads in all. -/
def Thread.rank (numThreads count : Nat) : Thread → Nat
  | .worker .lock => 2
  | .worker .locked => 1
  | .worker .asleep => 0
  | .worker .notified => 2
  | .worker (.holding _) => 3
  | .worker .exited => 0
  | .worker .faulted => 0
  | .push _ .lock => 9
  | .push _ .locked => 8
  | .push _ .asleep => 7
  | .push _ .notified => 9
  | .push _ .relocked => 8
  | .push _ .returned => 0
  | .push _ (.threw _) => 0
  | .shutdown _ .lock => numThreads + 4 * count + 5
  | .shutdown _ .locked => numThreads + 4 * count + 4
  | .shutdown _ .notifyNotFull => numThreads + 4 * count + 3
  | .shutdown _ .notifyNotEmpty => numThreads + 2 * count + 2
  | .shutdown _ (.joining i) => numThreads - i + 1
  | .shutdown _ (.returned _) => 0

/-- What a notification may add to the ranks of `count` threads. -/
def Notification.cost (count : Nat) : Notification → Nat
  | .nobody => 0
  | .oneNotEmpty => 2
  | .oneNotFull => 2
  | .allNotEmpty => 2 * count
  | .allNotFull => 2 * count

/-- A queued task is worth the moves of the worker that takes it and of the
caller that is woken for its slot. -/
def State.rank (s : State) : Nat :=
  5 * s.pool.taskQueue.length +
    (s.threads.map (Thread.rank s.numThreads s.threads.length)).sum

theorem Thread.rank_wakeNotEmpty (numThreads count : Nat) (t : Thread) :
    t.wakeNotEmpty.rank numThreads count ≤ t.rank numThreads count + 2 := by
  unfold Thread.wakeNotEmpty
  split
  · exact Nat.le_refl _
  · exact Nat.le_add_right _ _

theorem Thread.rank_wakeNotFull (numThreads count : Nat) (t : Thread) :
    t.wakeNotFull.rank numThreads count ≤ t.rank numThreads count + 2 := by
  unfold Thread.wakeNotFull
  split
  · exact Nat.le_refl _
  · exact Nat.le_add_right _ _

theorem Notified.length_eq {notification : Notification}
    {ts ts' : List Thread} (h : Notified notification ts ts') :
    ts'.length = ts.length := by
  have hmap := Thread.blind_isWorker.notified h
  simpa using congrArg List.length hmap

theorem Notified.rank_le {notification : Notification}
    {ts ts' : List Thread} (h : Notified notification ts ts')
    (numThreads count : Nat) (hcount : ts.length = count) :
    (ts'.map (Thread.rank numThreads count)).sum ≤
      (ts.map (Thread.rank numThreads count)).sum +
        notification.cost count := by
  cases h with
  | nobody => exact Nat.le_refl _
  | oneNotEmpty _ _ hone =>
      exact hone.sum_map_le _ (Thread.rank_wakeNotEmpty numThreads count)
  | oneNotFull _ _ hone =>
      exact hone.sum_map_le _ (Thread.rank_wakeNotFull numThreads count)
  | allNotEmpty =>
      have hall := sum_map_map_le _
        (Thread.rank_wakeNotEmpty numThreads count) ts
      rwa [hcount] at hall
  | allNotFull =>
      have hall := sum_map_map_le _
        (Thread.rank_wakeNotFull numThreads count) ts
      rwa [hcount] at hall

theorem Pool.length_close (p : Pool) (kind : ShutdownKind) :
    (p.close kind).taskQueue.length ≤ p.taskQueue.length := by
  cases kind with
  | graceful => exact Nat.le_refl _
  | immediate => exact Nat.zero_le _

/-- **A move pays for the notification it sends.** -/
theorem Moves.rank_lt {s : State} {c : Nat} {old new : Thread}
    {effect : Effect} (h : Moves s c old new effect) (count : Nat) :
    5 * effect.pool.taskQueue.length + new.rank s.numThreads count +
        effect.notification.cost count <
      5 * s.pool.taskQueue.length + old.rank s.numThreads count := by
  cases h with
  | workerGrabs e rest hchoice =>
      obtain ⟨-, hqueue⟩ := Pool.of_workerChoice_grab hchoice
      simp only [Pool.grab, Thread.rank, Notification.cost, hqueue,
        List.length_cons]
      omega
  | workerResolves e pool hset =>
      rw [Pool.of_setValue hset]
      simp only [State.local, Thread.rank, Notification.cost]
      omega
  | pushWaits task pc waited hpc _ =>
      subst hpc
      cases waited <;>
        simp [State.local, Thread.rank, Notification.cost]
  | pushThrows task pc waited what hpc _ =>
      subst hpc
      cases waited <;>
        simp [State.local, Thread.rank, Notification.cost]
  | pushes task pc waited hpc _ =>
      subst hpc
      cases waited <;>
        simp only [Pool.push, Thread.rank, Notification.cost,
          List.length_append, List.length_singleton, if_true,
          Bool.false_eq_true, if_false] <;> omega
  | shutdownCloses kind _ =>
      have hclose := s.pool.length_close kind
      simp only [State.local, Thread.rank, Notification.cost]
      omega
  | _ =>
      simp only [State.local, Thread.rank, Notification.cost]
      omega

/-- **Every move lowers the rank.** -/
theorem rank_move {s t : State} {a : Action} (h : OwnStep s a t) :
    t.rank < s.rank := by
  obtain ⟨hstep, c, rfl⟩ := h
  cases hstep with
  | move _ old new effect owner threads hc hmove _ hnotified =>
      have hlength : (s.threads.set c new).length = s.threads.length :=
        List.length_set
      have hthreads := hnotified.length_eq.trans hlength
      have hsum := sum_map_set
        (Thread.rank s.numThreads s.threads.length) hc new
      have hwoken := hnotified.rank_le s.numThreads s.threads.length hlength
      have hpaid := hmove.rank_lt s.threads.length
      simp only [State.rank, hthreads]
      omega

/-! ## The workers come first -/

structure TableInvariant (numThreads : Nat) (s : State) : Prop where
  worker_at : ∀ j : Nat, j < numThreads →
    (s.threads.map Thread.isWorker)[j]? = some true
  joinable_length : s.joinable.length = numThreads

theorem tableInvariant_initial (numThreads queueCapacity : Nat) :
    TableInvariant numThreads (.initial numThreads queueCapacity) := by
  constructor
  · intro j hj
    simp [State.initial, hj, Thread.isWorker]
  · exact List.length_replicate

theorem Moves.joinable_length {s : State} {c : Nat} {old new : Thread}
    {effect : Effect} (h : Moves s c old new effect) :
    effect.joinable.length = s.joinable.length := by
  cases h with
  | joins kind i _ _ _ => exact List.length_set
  | _ => rfl

namespace TableInvariant

variable {numThreads : Nat} {s : State}

theorem concat (h : TableInvariant numThreads s) (new : Thread) :
    TableInvariant numThreads { s with threads := s.threads ++ [new] } where
  worker_at := by
    intro j hj
    have hworker := h.worker_at j hj
    rw [List.map_append, List.getElem?_append_left
      (lt_length_of_getElem? hworker)]
    exact hworker
  joinable_length := h.joinable_length

theorem step (h : TableInvariant numThreads s) {a : Action} {t : State}
    (hstep : Step s a t) : TableInvariant numThreads t := by
  cases hstep with
  | pushTask task => exact h.concat _
  | shutdown kind => exact h.concat _
  | wakeSpuriously c thread hc =>
      have hsame : (s.threads.set c thread.wakeNotEmpty.wakeNotFull).map
          Thread.isWorker = s.threads.map Thread.isWorker := by
        refine map_set_of_eq _ hc ?_
        rw [Thread.blind_isWorker.wakeNotFull,
          Thread.blind_isWorker.wakeNotEmpty]
      exact ⟨fun j hj => hsame ▸ h.worker_at j hj, h.joinable_length⟩
  | move c old new effect owner threads hc hmove _ hnotified =>
      have hsame := (Thread.blind_isWorker.notified hnotified).trans
        (map_set_of_eq _ hc hmove.isWorker_eq)
      exact ⟨fun j hj => hsame ▸ h.worker_at j hj,
        hmove.joinable_length.trans h.joinable_length⟩

end TableInvariant

/-! ## Threads that cannot move -/

/-- No thread inside the pool can move. -/
def Stuck (s : State) : Prop := ∀ a t, ¬ OwnStep s a t

theorem exists_notified (notification : Notification) (ts : List Thread) :
    ∃ ts', Notified notification ts ts' := by
  cases notification with
  | nobody => exact ⟨_, .nobody ts⟩
  | oneNotEmpty =>
      obtain ⟨ts', hone⟩ := exists_notifyOne Thread.asleepNotEmpty
        Thread.wakeNotEmpty ts
      exact ⟨ts', .oneNotEmpty ts ts' hone⟩
  | oneNotFull =>
      obtain ⟨ts', hone⟩ := exists_notifyOne Thread.asleepNotFull
        Thread.wakeNotFull ts
      exact ⟨ts', .oneNotFull ts ts' hone⟩
  | allNotEmpty => exact ⟨_, .allNotEmpty ts⟩
  | allNotFull => exact ⟨_, .allNotFull ts⟩

namespace Stuck

variable {numThreads queueCapacity : Nat} {s : State}

/-- A move that the mutex lets through would be possible. -/
theorem no_move (hstuck : Stuck s) {c : Nat} {old new : Thread}
    {effect : Effect} {owner : Option Nat} (hc : s.threads[c]? = some old)
    (hmove : Moves s c old new effect)
    (howner : acquire s.poolMutex c old new = some owner) : False := by
  obtain ⟨threads, hnotified⟩ := exists_notified effect.notification
    (s.threads.set c new)
  exact hstuck _ _
    ⟨.move s c old new effect owner threads hc hmove howner hnotified, c, rfl⟩

/-- Whoever has the mutex can move, so it is free. -/
theorem mutex_free (hstuck : Stuck s)
    (h : Invariant numThreads queueCapacity s) : s.poolMutex = none := by
  cases hmutex : s.poolMutex with
  | none => rfl
  | some c =>
      exfalso
      have hholds := (h.owner c).mpr hmutex
      rw [List.getElem?_map, Option.map_eq_some_iff] at hholds
      obtain ⟨t, hc, hholds⟩ := hholds
      match t, hc, hholds with
      | .worker .locked, hc, _ =>
          cases hchoice : s.pool.workerChoice with
          | wait => exact hstuck.no_move hc (.workerWaits hchoice) rfl
          | leave => exact hstuck.no_move hc (.workerLeaves hchoice) rfl
          | grab e rest =>
              exact hstuck.no_move hc (.workerGrabs e rest hchoice) rfl
          | undefined =>
              exact hstuck.no_move hc (.workerFaults hchoice) rfl
      | .push task .locked, hc, _ =>
          cases hchoice : s.pool.pushChoice false with
          | wait =>
              exact hstuck.no_move hc (.pushWaits task _ false rfl hchoice)
                rfl
          | throw what =>
              exact hstuck.no_move hc
                (.pushThrows task _ false what rfl hchoice) rfl
          | push =>
              exact hstuck.no_move hc (.pushes task _ false rfl hchoice) rfl
      | .push task .relocked, hc, _ =>
          cases hchoice : s.pool.pushChoice true with
          | wait =>
              exact hstuck.no_move hc (.pushWaits task _ true rfl hchoice) rfl
          | throw what =>
              exact hstuck.no_move hc
                (.pushThrows task _ true what rfl hchoice) rfl
          | push =>
              exact hstuck.no_move hc (.pushes task _ true rfl hchoice) rfl
      | .shutdown kind .locked, hc, _ =>
          cases hclosed : s.pool.isShutdown with
          | true =>
              exact hstuck.no_move hc (.shutdownReturns kind hclosed) rfl
          | false =>
              exact hstuck.no_move hc (.shutdownCloses kind hclosed) rfl

/-- A thread that can only wait: for a wakeup, or for a worker to exit. -/
inductive Waits : Thread → Prop
  | workerAsleep : Waits (.worker .asleep)
  | exited : Waits (.worker .exited)
  | callerAsleep (task : Task) : Waits (.push task .asleep)
  | returned (task : Task) : Waits (.push task .returned)
  | threw (task : Task) (what : String) : Waits (.push task (.threw what))
  | joining (kind : ShutdownKind) (i : Nat) :
      Waits (.shutdown kind (.joining i))
  | stopped (kind : ShutdownKind) (setFlag : Bool) :
      Waits (.shutdown kind (.returned setFlag))

theorem waits (hstuck : Stuck s) (h : Invariant numThreads queueCapacity s)
    {t : Thread} (ht : t ∈ s.threads) : Waits t := by
  obtain ⟨c, hc⟩ := List.mem_iff_getElem?.mp ht
  have hfree := hstuck.mutex_free h
  have hholds : t.holdsMutex ≠ true := by
    intro hholds
    have howner := h.owner.owner_of_holds hc hholds
    rw [hfree] at howner
    cases howner
  have htakes : ∀ {new : Thread} {effect : Effect},
      Moves s c t new effect → new.holdsMutex = true → False := by
    intro new effect hmove hnew
    have howner : acquire s.poolMutex c t new = some (some c) := by
      rw [acquire, hnew, hfree, Bool.eq_false_iff.mpr hholds]
      rfl
    exact hstuck.no_move hc hmove howner
  have hkeeps : ∀ {new : Thread} {effect : Effect},
      Moves s c t new effect → new.holdsMutex = false → False := by
    intro new effect hmove hnew
    have howner : acquire s.poolMutex c t new = some none := by
      rw [acquire, hnew, hfree, Bool.eq_false_iff.mpr hholds]
    exact hstuck.no_move hc hmove howner
  cases t with
  | worker pc =>
      cases pc with
      | lock => exact (htakes .workerLocks rfl).elim
      | locked => exact absurd rfl hholds
      | asleep => exact .workerAsleep
      | notified => exact (htakes .workerRelocks rfl).elim
      | holding e =>
          cases hset : s.pool.setValue e (process e.2) with
          | none => exact (hkeeps (.workerTerminates e hset) rfl).elim
          | some pool => exact (hkeeps (.workerResolves e pool hset) rfl).elim
      | exited => exact .exited
      | faulted => exact (h.ok _ ht).elim
  | push task pc =>
      cases pc with
      | lock => exact (htakes (.pushLocks task) rfl).elim
      | locked => exact absurd rfl hholds
      | asleep => exact .callerAsleep task
      | notified => exact (htakes (.pushRelocks task) rfl).elim
      | relocked => exact absurd rfl hholds
      | returned => exact .returned task
      | threw what => exact .threw task what
  | shutdown kind pc =>
      cases pc with
      | lock => exact (htakes (.shutdownLocks kind) rfl).elim
      | locked => exact absurd rfl hholds
      | notifyNotFull => exact (hkeeps (.notifiesNotFull kind) rfl).elim
      | notifyNotEmpty => exact (hkeeps (.notifiesNotEmpty kind) rfl).elim
      | joining i => exact .joining kind i
      | returned setFlag => exact .stopped kind setFlag

/-- With a flag set nobody sleeps: a shutdown call would be about to wake
them. -/
theorem nobody_asleep {s : Tracked} (hstuck : Stuck s.state)
    (h : WakeInvariant numThreads queueCapacity s)
    (hclosed : s.state.pool.isShutdown = true) {t : Thread}
    (ht : t ∈ s.state.threads) :
    t.asleepNotEmpty = false ∧ t.asleepNotFull = false := by
  constructor
  · rcases h.workersAll hclosed with hnobody | henough
    · exact hnobody t ht
    · obtain ⟨other, hmem, hwakes⟩ := List.countP_pos_iff.mp henough
      cases hstuck.waits h.invariant hmem <;> cases hwakes
  · rcases h.callersAll hclosed with hnobody | henough
    · exact hnobody t ht
    · obtain ⟨other, hmem, hwakes⟩ := List.countP_pos_iff.mp henough
      cases hstuck.waits h.invariant hmem <;> cases hwakes

/-- With a flag set every worker has exited. -/
theorem worker_exited {s : Tracked} (hstuck : Stuck s.state)
    (h : WakeInvariant numThreads queueCapacity s)
    (hclosed : s.state.pool.isShutdown = true) {t : Thread}
    (ht : t ∈ s.state.threads) (hworker : t.isWorker = true) :
    t = .worker .exited := by
  have hawake := (hstuck.nobody_asleep h hclosed ht).1
  cases hstuck.waits h.invariant ht with
  | workerAsleep => cases hawake
  | exited => rfl
  | _ => cases hworker

/-- A shutdown call that joins a worker that has exited can move. -/
theorem not_joining {s : State} (hstuck : Stuck s)
    (h : Invariant numThreads queueCapacity s)
    (htable : TableInvariant numThreads s)
    (hexited : ∀ t ∈ s.threads, t.isWorker = true → t = .worker .exited)
    {kind : ShutdownKind} {i : Nat} :
    Thread.shutdown kind (.joining i) ∉ s.threads := by
  intro ht
  obtain ⟨c, hc⟩ := List.mem_iff_getElem?.mp ht
  by_cases hi : i < s.numThreads
  · have hlt : i < numThreads := h.numThreads_eq ▸ hi
    have hworker := htable.worker_at i hlt
    rw [List.getElem?_map, Option.map_eq_some_iff] at hworker
    obtain ⟨t, hget, hisWorker⟩ := hworker
    have hout := hexited t (List.mem_of_getElem? hget) hisWorker
    subst hout
    cases hjoinable : s.joinable[i]? with
    | none =>
        have hle := List.getElem?_eq_none_iff.mp hjoinable
        have hlength := htable.joinable_length
        omega
    | some joinable =>
        cases joinable with
        | true => exact hstuck.no_move hc (.joins kind i hi hjoinable hget) rfl
        | false => exact hstuck.no_move hc (.skipsJoin kind i hi hjoinable) rfl
  · exact hstuck.no_move hc (.shutdownJoined kind i hi) rfl

end Stuck

/-! ## The pool at rest -/

/-- The call has given its caller an answer. -/
def Thread.hasReturned : Thread → Bool
  | .push _ .returned => true
  | .push _ (.threw _) => true
  | .shutdown _ (.returned _) => true
  | _ => false

/-- Every call has returned or thrown, no task is left, every promise has a
value or was dropped, and the workers sleep or, after a shutdown, have
exited. -/
structure Settled (s : State) : Prop where
  calls : ∀ t ∈ s.threads, t.isWorker = false → t.hasReturned = true
  queue : s.pool.taskQueue = []
  futures : ∀ e ∈ s.pool.accepted,
    e ∈ s.pool.resolved.map Prod.fst ∨ e ∈ s.pool.dropped
  workers : ∀ t ∈ s.threads, t.isWorker = true →
    t = if s.pool.isShutdown then .worker .exited else .worker .asleep

/-- Every promise is accounted for when no task is queued or held. -/
theorem Invariant.futures {numThreads queueCapacity : Nat} {s : State}
    (h : Invariant numThreads queueCapacity s)
    (hqueue : s.pool.taskQueue = [])
    (hheld : ∀ t ∈ s.threads, ∀ e, t.holds e = false) :
    ∀ e ∈ s.pool.accepted,
      e ∈ s.pool.resolved.map Prod.fst ∨ e ∈ s.pool.dropped := by
  intro e he
  have hplaces := h.places_eq e
  have hnone : s.threads.countP (Thread.holds e) = 0 :=
    List.countP_eq_zero.mpr fun t ht => by simp [hheld t ht e]
  rw [if_pos he, State.places, hqueue, hnone, List.count_nil] at hplaces
  by_cases hresolved : e ∈ s.pool.resolved.map Prod.fst
  · exact .inl hresolved
  · rw [List.count_eq_zero.mpr hresolved] at hplaces
    exact .inr (List.count_pos_iff.mp (by omega))

theorem Stuck.no_holder {numThreads queueCapacity : Nat} {s : State}
    (hstuck : Stuck s) (h : Invariant numThreads queueCapacity s) :
    ∀ t ∈ s.threads, ∀ e, t.holds e = false := by
  intro t ht e
  cases hstuck.waits h ht <;> rfl

/-- After a shutdown. -/
theorem Stuck.settled_closed {numThreads queueCapacity : Nat} {s : Tracked}
    (hthreads : 1 ≤ numThreads) (hstuck : Stuck s.state)
    (h : WakeInvariant numThreads queueCapacity s)
    (htable : TableInvariant numThreads s.state)
    (hclosed : s.state.pool.isShutdown = true) : Settled s.state := by
  have hexited := fun t ht => hstuck.worker_exited h hclosed (t := t) ht
  have hqueue : s.state.pool.taskQueue = [] := by
    have hworker := htable.worker_at 0 hthreads
    rw [List.getElem?_map, Option.map_eq_some_iff] at hworker
    obtain ⟨t, hget, hisWorker⟩ := hworker
    have hmem := List.mem_of_getElem? hget
    have hok := h.invariant.ok t hmem
    rw [hexited t hmem hisWorker] at hok
    rcases hok with himm | ⟨-, hempty⟩
    · exact h.invariant.pool.drained himm
    · exact hempty
  refine ⟨fun t ht hcall => ?_, hqueue,
    h.invariant.futures hqueue (hstuck.no_holder h.invariant),
    fun t ht hworker => ?_⟩
  · have hawake := (hstuck.nobody_asleep h hclosed ht).2
    cases hstuck.waits h.invariant ht with
    | workerAsleep => cases hcall
    | exited => cases hcall
    | callerAsleep task => cases hawake
    | returned task => rfl
    | threw task what => rfl
    | joining kind i =>
        exact absurd ht (hstuck.not_joining h.invariant htable hexited)
    | stopped kind setFlag => rfl
  · rw [hclosed, if_pos rfl]
    exact hexited t ht hworker

/-- Before a shutdown. -/
theorem Stuck.settled_open {numThreads queueCapacity : Nat} {s : Tracked}
    (hcapacity : 1 ≤ queueCapacity) (hstuck : Stuck s.state)
    (h : WakeInvariant numThreads queueCapacity s)
    (hworker : ∃ t ∈ s.state.threads, t.isWorker = true)
    (hopen : s.state.pool.isShutdown = false) : Settled s.state := by
  have hflag : ∀ kind, s.state.pool.flag kind ≠ true := by
    intro kind hkind
    rw [Pool.isShutdown, Bool.or_eq_false_iff] at hopen
    cases kind with
    | graceful => cases hopen.1.symm.trans hkind
    | immediate => cases hopen.2.symm.trans hkind
  have hasleep : ∀ t ∈ s.state.threads, t.isWorker = true →
      t = .worker .asleep := by
    intro t ht hisWorker
    have hok := h.invariant.ok t ht
    cases hstuck.waits h.invariant ht with
    | workerAsleep => rfl
    | exited =>
        rcases hok with himm | ⟨hgraceful, -⟩
        · exact absurd himm (hflag .immediate)
        · exact absurd hgraceful (hflag .graceful)
    | _ => cases hisWorker
  have hqueue := h.queue_of_workers_asleep hopen hworker
    fun t ht hisWorker => by rw [hasleep t ht hisWorker]; rfl
  refine ⟨fun t ht hcall => ?_, hqueue,
    h.invariant.futures hqueue (hstuck.no_holder h.invariant),
    fun t ht hisWorker => ?_⟩
  · have hok := h.invariant.ok t ht
    cases hstuck.waits h.invariant ht with
    | workerAsleep => cases hcall
    | exited => cases hcall
    | callerAsleep task =>
        -- There is room, so some caller has been woken and can move.
        have hroom : 0 < s.room := by
          rw [Tracked.room, hqueue,
            h.invariant.pool.maxQueueSize_eq, List.length_nil]
          exact hcapacity
        obtain ⟨other, hmem, hwoken⟩ :=
          (h.callers hopen).exists_woken ht rfl hroom
        cases hstuck.waits h.invariant hmem <;> cases hwoken
    | returned task => rfl
    | threw task what => rfl
    | joining kind i => exact absurd hok.1 (hflag kind)
    | stopped kind setFlag => rfl
  · rw [hopen, if_neg Bool.false_ne_true]
    exact hasleep t ht hisWorker

/-- **Threads that cannot move have nothing left to do.** -/
theorem settled_of_stuck {numThreads queueCapacity : Nat} {s : State}
    (hthreads : 1 ≤ numThreads) (hcapacity : 1 ≤ queueCapacity)
    (hs : Reaches Step (.initial numThreads queueCapacity) s)
    (hstuck : Stuck s) : Settled s := by
  obtain ⟨rechecking, htracked⟩ := exists_tracked hs
  have hwake := htracked.invariant (fun _ _ _ h hstep => h.step hstep)
    (wakeInvariant_initial numThreads queueCapacity)
  have htable := hs.invariant (fun _ _ _ h hstep => h.step hstep)
    (tableInvariant_initial numThreads queueCapacity)
  cases hclosed : s.pool.isShutdown with
  | true => exact hstuck.settled_closed hthreads hwake htable hclosed
  | false =>
      exact hstuck.settled_open hcapacity hwake
        (exists_worker hthreads hs) hclosed

/-- **The pool always settles.**  From every reachable state of a pool with a
worker and a slot, in every schedule of the threads then inside: no deadlock,
no livelock, and everything done at the end. -/
theorem pool_settles {numThreads queueCapacity : Nat} {s : State}
    (hthreads : 1 ≤ numThreads) (hcapacity : 1 ≤ queueCapacity)
    (hs : Reaches Step (.initial numThreads queueCapacity) s) :
    Inevitable OwnStep Settled s := by
  refine .of_rank
    (I := fun t => Reaches Step (.initial numThreads queueCapacity) t)
    State.rank (fun _ _ _ hreach hstep => hreach.tail hstep.1)
    (fun _ _ _ _ hstep => rank_move hstep) (fun t hreach hrest => ?_) hs
  by_contra hnone
  push Not at hnone
  exact hrest (settled_of_stuck hthreads hcapacity hreach hnone)

/-- One worker, one slot and three callers, the worker busy, the queue full
and the last caller asleep. -/
theorem pool_settles_three :
    ∃ s, Reaches Step (.initial 1 1) s ∧
      s.threads = [.worker (.holding (1, ⟨7, "a"⟩)), .push ⟨7, "a"⟩ .returned,
        .push ⟨8, "b"⟩ .returned, .push ⟨9, "c"⟩ .asleep] ∧
      Inevitable OwnStep Settled s := by
  have hcalled : Reaches Step (.initial 1 1) _ :=
    ((Reaches.single (.pushTask _ ⟨7, "a"⟩)).tail
      (.pushTask _ ⟨8, "b"⟩)).tail (.pushTask _ ⟨9, "c"⟩)
  have hfirst := (hcalled.tail
    (.move _ 1 _ _ _ _ _ rfl (.pushLocks _) rfl (.nobody _))).tail
    (.move _ 1 _ _ _ _ _ rfl (.pushes _ _ false rfl rfl) rfl
      (.oneNotEmpty _ _ (.nobody (by decide))))
  have hgrabbed := (hfirst.tail
    (.move _ 0 _ _ _ _ _ rfl .workerLocks rfl (.nobody _))).tail
    (.move _ 0 _ _ _ _ _ rfl (.workerGrabs _ _ rfl) rfl
      (.oneNotFull _ _ (.nobody (by decide))))
  have hsecond := (hgrabbed.tail
    (.move _ 2 _ _ _ _ _ rfl (.pushLocks _) rfl (.nobody _))).tail
    (.move _ 2 _ _ _ _ _ rfl (.pushes _ _ false rfl rfl) rfl
      (.oneNotEmpty _ _ (.nobody (by decide))))
  have hasleep := (hsecond.tail
    (.move _ 3 _ _ _ _ _ rfl (.pushLocks _) rfl (.nobody _))).tail
    (.move _ 3 _ _ _ _ _ rfl (.pushWaits _ _ false rfl rfl) rfl (.nobody _))
  exact ⟨_, hasleep, rfl, pool_settles (by decide) (by decide) hasleep⟩

end GoPrep.Ports.ThreadPool
