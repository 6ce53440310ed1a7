import GoPrep.Ports.ThreadPoolTasks

/-!
# What a shutdown call has stopped when it returns

The first shutdown call sets its flag, notifies everybody and joins the
workers; from its return on the pool stands still.  A later call finds the
flag set and returns at once, whether or not the first one is still joining.

## Main results

* `FlagInvariant.step` — exactly one call has set a flag, once one is set.
* `Stopped.step` — once all workers are joined no task is dequeued or
  resolved.
* `shutdown_stops` — when a shutdown call that set its flag has returned,
  every worker has left `workerLoop` for good.
* `shutdown_returns_early` — a second call that has returned while a task is
  still to be executed.
-/

namespace GoPrep.Ports.ThreadPool

open GoPrep.Verified.ThreadTable
open GoPrep.Verified.Transition

/-! ## First wins -/

namespace Thread

/-- The thread is a shutdown call that has set its flag. -/
def hasSetFlag : Thread → Bool
  | .shutdown _ .notifyNotFull => true
  | .shutdown _ .notifyNotEmpty => true
  | .shutdown _ (.joining _) => true
  | .shutdown _ (.returned setFlag) => setFlag
  | _ => false

/-- The thread is a shutdown call that found a flag set. -/
def returnedEarly : Thread → Bool
  | .shutdown _ (.returned setFlag) => !setFlag
  | _ => false

theorem blind_hasSetFlag : Blind hasSetFlag := ⟨rfl, fun _ => rfl⟩

theorem blind_returnedEarly : Blind returnedEarly := ⟨rfl, fun _ => rfl⟩

end Thread

/-- One call has set a flag, if a flag is set, and whoever returned early has
seen one. -/
structure FlagInvariant (s : State) : Prop where
  setters : s.threads.countP Thread.hasSetFlag =
    if s.pool.isShutdown then 1 else 0
  early : ∀ t ∈ s.threads, t.returnedEarly = true →
    s.pool.isShutdown = true

theorem flagInvariant_initial (numThreads queueCapacity : Nat) :
    FlagInvariant (.initial numThreads queueCapacity) where
  setters := by
    simp [State.initial, Pool.initial, Pool.isShutdown, List.countP_replicate,
      Thread.hasSetFlag]
  early := by
    intro t ht hearly
    rw [(List.mem_replicate.mp ht).2] at hearly
    cases hearly

namespace Moves

variable {s : State} {c : Nat} {old new : Thread} {effect : Effect}

/-- A move sets a flag exactly when its thread becomes the one that did. -/
theorem setters_eq (h : Moves s c old new effect) :
    (if effect.pool.isShutdown then 1 else 0) +
        (if old.hasSetFlag then 1 else 0) =
      (if s.pool.isShutdown then 1 else 0) +
        (if new.hasSetFlag then 1 else 0) := by
  cases h with
  | workerResolves e pool hset =>
      unfold Pool.setValue at hset
      split at hset <;> cases hset
      rfl
  | shutdownCloses kind hopen =>
      have hclosed : (s.pool.close kind).isShutdown = true := by
        cases kind <;> simp [Pool.close, Pool.isShutdown]
      simp [hopen, hclosed, Thread.hasSetFlag]
  | _ => rfl

theorem early (h : Moves s c old new effect)
    (hnew : new.returnedEarly = true) : effect.pool.isShutdown = true := by
  cases h with
  | shutdownReturns kind hshutdown => exact hshutdown
  | _ => cases hnew

end Moves

namespace FlagInvariant

variable {s : State}

theorem concat (h : FlagInvariant s) {new : Thread}
    (hflag : new.hasSetFlag = false) (hearly : new.returnedEarly = false) :
    FlagInvariant { s with threads := s.threads ++ [new] } where
  setters := by
    simp only [List.countP_append, List.countP_singleton, hflag]
    simpa using h.setters
  early := forall_mem_concat h.early fun hnew => by
    rw [hearly] at hnew
    cases hnew

theorem rewake (h : FlagInvariant s) {threads : List Thread}
    (hsame : ∀ {β : Type} (f : Thread → β), Thread.Blind f →
      threads.map f = s.threads.map f) :
    FlagInvariant { s with threads := threads } where
  setters := by
    rw [countP_congr_map (hsame _ Thread.blind_hasSetFlag)]
    exact h.setters
  early := by
    intro t ht hearly
    have hmem : t.returnedEarly ∈ threads.map Thread.returnedEarly :=
      List.mem_map_of_mem ht
    rw [hsame _ Thread.blind_returnedEarly, hearly] at hmem
    obtain ⟨t', ht', hearly'⟩ := List.mem_map.mp hmem
    exact h.early t' ht' hearly'

/-- **Every step preserves the invariant.** -/
theorem step (h : FlagInvariant s) {a : Action} {t : State}
    (hstep : Step s a t) : FlagInvariant t := by
  cases hstep with
  | pushTask task => exact h.concat rfl rfl
  | shutdown kind => exact h.concat rfl rfl
  | wakeSpuriously c t hc =>
      refine h.rewake fun f hf => map_set_of_eq f hc ?_
      rw [hf.wakeNotFull, hf.wakeNotEmpty]
  | move c old new effect owner threads hc hmove _ hnotified =>
      have hmoved : FlagInvariant
          { s with
            pool := effect.pool
            poolMutex := owner
            joinable := effect.joinable
            threads := s.threads.set c new } := by
        constructor
        · have hcount := countP_set Thread.hasSetFlag hc new
          have hsetters := hmove.setters_eq
          have hbefore := h.setters
          show (s.threads.set c new).countP Thread.hasSetFlag =
            if effect.pool.isShutdown then 1 else 0
          omega
        · exact forall_mem_set
            (fun t ht hearly =>
              hmove.poolChange.later.isShutdown (h.early t ht hearly))
            hmove.early
      exact hmoved.rewake fun f hf => hf.notified hnotified

end FlagInvariant

/-! ## Standing still -/

/-- Every worker is joined. -/
def Stopped (numThreads : Nat) (s : State) : Prop :=
  ∀ j < numThreads, s.joinable[j]? = some false

/-- What the workers have done so far. -/
def Pool.work (p : Pool) : List Entry × List (Entry × Result) :=
  (p.dequeued, p.resolved)

theorem Stopped.of_returned {numThreads queueCapacity : Nat} {s : State}
    (h : Invariant numThreads queueCapacity s) {kind : ShutdownKind}
    (hreturned : Thread.shutdown kind (.returned true) ∈ s.threads) :
    Stopped numThreads s :=
  (h.ok _ hreturned).2

/-- Only a worker works. -/
theorem Moves.work_eq {s : State} {c : Nat} {old new : Thread}
    {effect : Effect} (h : Moves s c old new effect)
    (hold : old.isWorker = false) : effect.pool.work = s.pool.work := by
  cases h with
  | workerGrabs | workerResolves => cases hold
  | shutdownCloses kind _ => cases kind <;> rfl
  | _ => rfl

/-- **Once all workers are joined no step executes a task.** -/
theorem Stopped.step {numThreads queueCapacity : Nat} {s t : State}
    (hstopped : Stopped numThreads s)
    (h : Invariant numThreads queueCapacity s) {a : Action}
    (hstep : Step s a t) :
    Stopped numThreads t ∧ t.pool.work = s.pool.work := by
  cases hstep with
  | move c old new effect owner threads hc hmove _ _ =>
      refine ⟨fun j hj => hmove.joinable_of_joined j (hstopped j hj),
        hmove.work_eq ?_⟩
      cases hworker : old.isWorker with
      | false => rfl
      | true =>
          have hexited := h.workers_exited hstopped hc hworker
          have hrunning := hmove.not_hasExited
          rw [hexited] at hrunning
          cases hrunning
  | _ => exact ⟨hstopped, rfl⟩

/-- When all workers are joined, they have all left their loop. -/
theorem Stopped.exited {numThreads queueCapacity : Nat} {s : State}
    (hstopped : Stopped numThreads s)
    (h : Invariant numThreads queueCapacity s) {j : Nat}
    (hj : j < numThreads) : s.threads[j]? = some (.worker .exited) := by
  have hexited := h.joined j (hstopped j hj)
  rw [List.getElem?_map, Option.map_eq_some_iff] at hexited
  obtain ⟨t, ht, hexit⟩ := hexited
  rw [ht]
  unfold Thread.hasExited at hexit
  split at hexit
  · rfl
  · cases hexit

/-- **A shutdown call that set its flag returns when the pool has stopped.**
For every number of workers, every capacity and every interleaving: as soon as
such a call has returned, and in every later state, each worker has left
`workerLoop` and is joined, and no task is dequeued or executed any more.  Of
all shutdown calls exactly one sets its flag; the others return at once, and
only when a flag is set. -/
theorem shutdown_stops (numThreads queueCapacity : Nat) {s : State}
    (hs : Reaches Step (.initial numThreads queueCapacity) s) :
    (∀ kind, Thread.shutdown kind (.returned true) ∈ s.threads →
      ∀ t, Reaches Step s t →
        (∀ j < numThreads, t.threads[j]? = some (.worker .exited) ∧
          t.joinable[j]? = some false) ∧
        (∀ thread ∈ t.threads, thread.isWorker = true →
          thread = .worker .exited) ∧
        t.pool.dequeued = s.pool.dequeued ∧
        t.pool.resolved = s.pool.resolved) ∧
      s.threads.countP Thread.hasSetFlag =
        (if s.pool.isShutdown then 1 else 0) ∧
      ∀ kind, Thread.shutdown kind (.returned false) ∈ s.threads →
        s.pool.isShutdown = true := by
  have hinv := hs.invariant (fun _ _ _ h hstep => h.step hstep)
    (invariant_initial numThreads queueCapacity)
  have hflag := hs.invariant (fun _ _ _ h hstep => h.step hstep)
    (flagInvariant_initial numThreads queueCapacity)
  refine ⟨fun kind hreturned t ht => ?_, hflag.setters,
    fun kind hreturned => hflag.early _ hreturned rfl⟩
  obtain ⟨hinv', hstopped, hwork⟩ := ht.invariant
    (I := fun t => Invariant numThreads queueCapacity t ∧
      Stopped numThreads t ∧ t.pool.work = s.pool.work)
    (fun _ _ _ h hstep =>
      have hnext := h.2.1.step h.1 hstep
      ⟨h.1.step hstep, hnext.1, hnext.2.trans h.2.2⟩)
    ⟨hinv, .of_returned hinv hreturned, rfl⟩
  refine ⟨fun j hj => ⟨hstopped.exited hinv' hj, hstopped j hj⟩, ?_,
    congrArg Prod.fst hwork, congrArg Prod.snd hwork⟩
  intro thread hthread hworker
  obtain ⟨i, hi⟩ := List.getElem?_of_mem hthread
  exact hinv'.workers_exited hstopped hi hworker

/-- A pool of one worker that an `immediateShutdown` has stopped. -/
theorem shutdown_stops_immediate :
    ∃ s, Reaches Step (.initial 1 1) s ∧
      Thread.shutdown .immediate (.returned true) ∈ s.threads ∧
      ∀ t, Reaches Step s t → t.pool.resolved = [] := by
  have hbegun : Step (.initial 1 1) (.shutdown .immediate) _ := .shutdown _ _
  have hclosed := ((Reaches.single hbegun).tail
    (.move _ 1 _ _ _ _ _ rfl (.shutdownLocks _) rfl (.nobody _))).tail
    (.move _ 1 _ _ _ _ _ rfl (.shutdownCloses _ rfl) rfl (.nobody _))
  have hnotified := (hclosed.tail
    (.move _ 1 _ _ _ _ _ rfl (.notifiesNotFull _) rfl (.allNotFull _))).tail
    (.move _ 1 _ _ _ _ _ rfl (.notifiesNotEmpty _) rfl (.allNotEmpty _))
  have hexited := (hnotified.tail
    (.move _ 0 _ _ _ _ _ rfl .workerLocks rfl (.nobody _))).tail
    (.move _ 0 _ _ _ _ _ rfl (.workerLeaves rfl) rfl (.nobody _))
  have hreturned := (hexited.tail
    (.move _ 1 _ _ _ _ _ rfl (.joins _ 0 (by decide) rfl rfl) rfl
      (.nobody _))).tail
    (.move _ 1 _ _ _ _ _ rfl (.shutdownJoined _ 1 (by decide)) rfl
      (.nobody _))
  obtain ⟨s, hs, hthreads, hresolved⟩ : ∃ s, Reaches Step (.initial 1 1) s ∧
      s.threads = [.worker .exited, .shutdown .immediate (.returned true)] ∧
      s.pool.resolved = [] := ⟨_, hreturned, rfl, rfl⟩
  have hmem : Thread.shutdown .immediate (.returned true) ∈ s.threads := by
    simp [hthreads]
  refine ⟨s, hs, hmem, fun t ht => ?_⟩
  obtain ⟨-, -, -, hsame⟩ := (shutdown_stops 1 1 hs).1 .immediate hmem t ht
  exact hsame.trans hresolved

/-- **A second shutdown call returns while a task is still to be executed.** -/
theorem shutdown_returns_early :
    ∃ s t, Reaches Step (.initial 1 1) s ∧
      Thread.shutdown .graceful (.returned false) ∈ s.threads ∧
      Thread.worker .lock ∈ s.threads ∧ s.pool.resolved = [] ∧
      Reaches Step s t ∧
      t.pool.resolved = [((1, ⟨7, "a"⟩), ⟨7, "Processed: a"⟩)] := by
  have hbegun : Step (.initial 1 1) (.pushTask ⟨7, "a"⟩) _ := .pushTask _ _
  have hpushed := ((Reaches.single hbegun).tail
    (.move _ 1 _ _ _ _ _ rfl (.pushLocks _) rfl (.nobody _))).tail
    (.move _ 1 _ _ _ _ _ rfl (.pushes _ _ false rfl rfl) rfl
      (.oneNotEmpty _ _ (.nobody (by decide))))
  have hclosed := ((hpushed.tail (.shutdown _ .graceful)).tail
    (.move _ 2 _ _ _ _ _ rfl (.shutdownLocks _) rfl (.nobody _))).tail
    (.move _ 2 _ _ _ _ _ rfl (.shutdownCloses _ rfl) rfl (.nobody _))
  let s : State :=
    { State.initial 1 1 with
      pool :=
        { Pool.initial 1 with
          taskQueue := [(1, ⟨7, "a"⟩)]
          accepted := [(1, ⟨7, "a"⟩)]
          isGracefulShutdown := true }
      threads :=
        [.worker .lock, .push ⟨7, "a"⟩ .returned,
          .shutdown .graceful .notifyNotFull,
          .shutdown .graceful (.returned false)] }
  have hsecond : Reaches Step (.initial 1 1) s :=
    ((hclosed.tail (.shutdown _ .graceful)).tail
      (.move _ 3 _ _ _ _ _ rfl (.shutdownLocks _) rfl (.nobody _))).tail
      (.move _ 3 _ _ _ _ _ rfl (.shutdownReturns _ rfl) rfl (.nobody _))
  have hlocks : Step s (.move 0) _ :=
    .move _ 0 _ _ _ _ _ rfl .workerLocks rfl (.nobody _)
  have hresolves := ((Reaches.single hlocks).tail
    (.move _ 0 _ _ _ _ _ rfl (.workerGrabs _ _ rfl) rfl
      (.oneNotFull _ _ (.nobody (by decide))))).tail
    (.move _ 0 _ _ _ _ _ rfl (.workerResolves _ _ rfl) rfl (.nobody _))
  exact ⟨s, _, hsecond, by decide, by decide, rfl, hresolves, rfl⟩

end GoPrep.Ports.ThreadPool
