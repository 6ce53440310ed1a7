import GoPrep.Ports.ThreadPoolNotify

/-!
# No wakeup of the thread pool is lost

A worker that takes the mutex again after a wakeup stands where one stands
that takes it for the first time.  `Tracked` remembers which of the two the
worker with the mutex is.

## Main results

* `WakeInvariant.step` — the wakeups under way cover the room in the queue and
  the tasks in it, in all interleavings.
* `no_lost_wakeup` — whoever sleeps although it could go on, a woken thread of
  its kind is about to look again, or a shutdown call is about to wake all.
* `all_asleep_but_one` — a caller and all workers asleep at once, another
  caller being about to look again.
-/

namespace GoPrep.Ports.ThreadPool

open GoPrep.Verified.ThreadTable
open GoPrep.Verified.Transition
open GoPrep.Verified.Wakeups

/-! ## Which worker looks again -/

/-- A state, and whether the worker that holds the mutex took it after a
wakeup. -/
structure Tracked where
  state : State
  rechecking : Bool

def Tracked.initial (numThreads queueCapacity : Nat) : Tracked :=
  { state := .initial numThreads queueCapacity, rechecking := false }

inductive TrackedStep : Tracked → Action → Tracked → Prop
  | move (s : Tracked) (c : Nat) (old : Thread) (t : State) :
      s.state.threads[c]? = some old → Step s.state (.move c) t →
      TrackedStep s (.move c)
        { state := t, rechecking := old.recheckingAfter s.rechecking }
  | other (s : Tracked) (a : Action) (t : State) : (∀ c, a ≠ .move c) →
      Step s.state a t →
      TrackedStep s a { state := t, rechecking := s.rechecking }

/-- Every step can be tracked. -/
theorem exists_trackedStep {s : Tracked} {a : Action} {t : State}
    (h : Step s.state a t) :
    ∃ rechecking, TrackedStep s a { state := t, rechecking := rechecking } := by
  cases h with
  | move c old new effect owner threads hc hmove howner hnotified =>
      exact ⟨_, .move s c old _ hc
        (.move s.state c old new effect owner threads hc hmove howner
          hnotified)⟩
  | pushTask task =>
      exact ⟨_, .other s _ _ (by simp) (.pushTask s.state task)⟩
  | shutdown kind =>
      exact ⟨_, .other s _ _ (by simp) (.shutdown s.state kind)⟩
  | wakeSpuriously c thread hc =>
      exact ⟨_, .other s _ _ (by simp) (.wakeSpuriously s.state c thread hc)⟩

theorem exists_tracked {numThreads queueCapacity : Nat} {s : State}
    (hs : Reaches Step (.initial numThreads queueCapacity) s) :
    ∃ rechecking, Reaches TrackedStep (.initial numThreads queueCapacity)
      { state := s, rechecking := rechecking } := by
  induction hs with
  | refl => exact ⟨false, .refl⟩
  | tail _ hlast ih =>
      obtain ⟨rechecking, hreaches⟩ := ih
      obtain ⟨rechecking', hstep⟩ := exists_trackedStep
        (s := { state := _, rechecking := rechecking }) hlast
      exact ⟨rechecking', hreaches.tail hstep⟩

theorem TrackedStep.step {s t : Tracked} {a : Action}
    (h : TrackedStep s a t) : Step s.state a t.state := by
  cases h with
  | move _ _ _ _ hstep => exact hstep
  | other _ _ _ hstep => exact hstep

theorem untracked {s : Tracked} {numThreads queueCapacity : Nat}
    (hs : Reaches TrackedStep (.initial numThreads queueCapacity) s) :
    Reaches Step (.initial numThreads queueCapacity) s.state := by
  induction hs with
  | refl => exact .refl
  | tail _ hlast ih => exact ih.tail hlast.step

/-! ## The invariant -/

/-- The tasks that no worker with the mutex is about to take. -/
def Tracked.tasksLeft (s : Tracked) : Nat :=
  s.state.pool.taskQueue.length - (if s.rechecking then 1 else 0)

/-- The free slots of the queue. -/
def Tracked.room (s : Tracked) : Nat :=
  s.state.pool.maxQueueSize - s.state.pool.taskQueue.length

structure WakeInvariant (numThreads queueCapacity : Nat) (s : Tracked) :
    Prop where
  invariant : Invariant numThreads queueCapacity s.state
  recheck : s.rechecking = true → ∃ c, s.state.poolMutex = some c ∧
    s.state.threads[c]? = some (.worker .locked)
  workers : s.state.pool.isShutdown = false →
    Enough Thread.asleepNotEmpty Thread.workerNotified s.state.threads
      s.tasksLeft
  callers : s.state.pool.isShutdown = false →
    Enough Thread.asleepNotFull Thread.pushRechecks s.state.threads s.room
  workersAll : s.state.pool.isShutdown = true →
    Enough Thread.asleepNotEmpty Thread.notifiesWorkers s.state.threads 1
  callersAll : s.state.pool.isShutdown = true →
    Enough Thread.asleepNotFull Thread.notifiesCallers s.state.threads 1

theorem wakeInvariant_initial (numThreads queueCapacity : Nat) :
    WakeInvariant numThreads queueCapacity
      (.initial numThreads queueCapacity) where
  invariant := invariant_initial numThreads queueCapacity
  recheck := fun h => Bool.noConfusion h
  workers := fun _ => .zero _ _ _
  callers := by
    refine fun _ => .inl fun t ht => ?_
    rw [(List.mem_replicate.mp ht).2]
    rfl
  workersAll := fun h => Bool.noConfusion h
  callersAll := fun h => Bool.noConfusion h

namespace WakeInvariant

variable {numThreads queueCapacity : Nat} {s : Tracked}

/-- A call that begins. -/
theorem concat (h : WakeInvariant numThreads queueCapacity s) {new : Thread}
    (hinv : Invariant numThreads queueCapacity
      { s.state with threads := s.state.threads ++ [new] })
    (hworker : new.asleepNotEmpty = false)
    (hcaller : new.asleepNotFull = false) :
    WakeInvariant numThreads queueCapacity
      { s with state :=
        { s.state with threads := s.state.threads ++ [new] } } where
  invariant := hinv
  recheck := fun hrecheck => by
    obtain ⟨c, howner, hc⟩ := h.recheck hrecheck
    exact ⟨c, howner, getElem?_concat_eq_some.mpr (.inl hc)⟩
  workers := fun hopen => (h.workers hopen).concat hworker
  callers := fun hopen => (h.callers hopen).concat hcaller
  workersAll := fun hclosed => (h.workersAll hclosed).concat hworker
  callersAll := fun hclosed => (h.callersAll hclosed).concat hcaller

theorem wakeSpuriously (h : WakeInvariant numThreads queueCapacity s)
    {c : Nat} {t : Thread} (hc : s.state.threads[c]? = some t)
    (hinv : Invariant numThreads queueCapacity
      { s.state with
        threads := s.state.threads.set c t.wakeNotEmpty.wakeNotFull }) :
    WakeInvariant numThreads queueCapacity
      { s with state :=
        { s.state with
          threads := s.state.threads.set c t.wakeNotEmpty.wakeNotFull } } where
  invariant := hinv
  recheck := fun hrecheck => by
    obtain ⟨d, howner, hd⟩ := h.recheck hrecheck
    refine ⟨d, howner, ?_⟩
    rw [getElem?_set_eq hc]
    split
    next hcd =>
      rw [← hcd, hc] at hd
      rw [Option.some.inj hd]
      rfl
    · exact hd
  workers := fun hopen => wakesUp_workers.wakeSpuriously (h.workers hopen) hc
  callers := fun hopen => wakesUp_callers.wakeSpuriously (h.callers hopen) hc
  workersAll := fun hclosed =>
    wakesUp_workersAll.wakeSpuriously (h.workersAll hclosed) hc
  callersAll := fun hclosed =>
    wakesUp_callersAll.wakeSpuriously (h.callersAll hclosed) hc

/-- While the worker with the mutex rechecks, nobody else takes or gives up
the mutex. -/
theorem not_rechecking (h : WakeInvariant numThreads queueCapacity s) {c : Nat}
    {old new : Thread} {owner : Option Nat}
    (hc : s.state.threads[c]? = some old)
    (howner : acquire s.state.poolMutex c old new = some owner)
    (hold : old ≠ .worker .locked)
    (hmutex : old.holdsMutex = true ∨ new.holdsMutex = true) :
    s.rechecking = false := by
  cases hrecheck : s.rechecking with
  | false => rfl
  | true =>
      exfalso
      obtain ⟨d, hd, hworker⟩ := h.recheck hrecheck
      cases hholds : old.holdsMutex with
      | true =>
          have hself := h.invariant.owner.owner_of_holds hc hholds
          rw [hd] at hself
          obtain rfl := Option.some.inj hself
          exact hold (Option.some.inj (hc.symm.trans hworker))
      | false =>
          have hnew := hmutex.resolve_left (by simp [hholds])
          simp [acquire, hholds, hnew, hd] at howner

section Move

variable {c : Nat} {old new : Thread} {effect : Effect} {owner : Option Nat}
variable {threads : List Thread}

theorem recheck_move (h : WakeInvariant numThreads queueCapacity s)
    (hm : MovesTo s.state c old new effect owner threads)
    (hrecheck : old.recheckingAfter s.rechecking = true) :
    ∃ d, owner = some d ∧ threads[d]? = some (.worker .locked) := by
  by_cases hwoken : old = .worker .notified
  · subst hwoken
    exact ⟨c, hm.rechecks⟩
  · have hheld : old.holdsMutex = false ∧ s.rechecking = true := by
      unfold Thread.recheckingAfter at hrecheck
      split at hrecheck
      · exact absurd rfl hwoken
      · split at hrecheck
        · cases hrecheck
        next hnot => exact ⟨by simpa using hnot, hrecheck⟩
    obtain ⟨d, hd, hworker⟩ := h.recheck hheld.2
    have hnew : new.holdsMutex = false := by
      cases hholds : new.holdsMutex with
      | false => rfl
      | true =>
          have hnot := h.not_rechecking hm.entry hm.acquires
            (fun heq => by rw [heq] at hheld; cases hheld.1) (.inr hholds)
          rw [hheld.2] at hnot
          cases hnot
    have hacquires := hm.acquires
    simp only [acquire, hheld.1, hnew] at hacquires
    refine ⟨d, ?_, hm.locked_stays ?_⟩
    · rw [← hd]
      exact (Option.some.inj hacquires).symm
    · refine getElem?_set_of_ne hm.entry hworker ?_ _
      rintro rfl
      cases hheld.1

theorem workers_move (h : WakeInvariant numThreads queueCapacity s)
    (hm : MovesTo s.state c old new effect owner threads)
    (hopen : effect.pool.isShutdown = false) :
    Enough Thread.asleepNotEmpty Thread.workerNotified threads
      (effect.pool.taskQueue.length -
        (if old.recheckingAfter s.rechecking then 1 else 0)) := by
  have henough := h.workers (hm.open_before hopen)
  cases hnew : new.asleepNotEmpty with
  | true =>
      rw [(hm.moves.queue_of_asleep hnew).1, List.length_nil, Nat.zero_sub]
      exact .zero _ _ _
  | false =>
      have hle := hm.moves.workers_le hnew hopen
        (h.not_rechecking hm.entry hm.acquires)
      have hset : Enough Thread.asleepNotEmpty Thread.workerNotified
          (s.state.threads.set c new)
          (effect.pool.taskQueue.length -
            (if old.recheckingAfter s.rechecking then 1 else 0) -
            effect.notification.wakesWorker) := by
        refine henough.set hm.entry hnew fun hpos => ?_
        rw [Tracked.tasksLeft]
        omega
      exact (enough_workers hset hm.notified).mono (by omega)

theorem callers_move (h : WakeInvariant numThreads queueCapacity s)
    (hm : MovesTo s.state c old new effect owner threads)
    (hopen : effect.pool.isShutdown = false) :
    Enough Thread.asleepNotFull Thread.pushRechecks threads
      (effect.pool.maxQueueSize - effect.pool.taskQueue.length) := by
  have henough := h.callers (hm.open_before hopen)
  cases hnew : new.asleepNotFull with
  | true =>
      rw [Nat.sub_eq_zero_of_le (hm.moves.full_of_asleep hnew).1]
      exact .zero _ _ _
  | false =>
      have hle := hm.moves.callers_le hnew hopen
      have hset : Enough Thread.asleepNotFull Thread.pushRechecks
          (s.state.threads.set c new)
          (effect.pool.maxQueueSize - effect.pool.taskQueue.length -
            effect.notification.wakesCaller) := by
        refine henough.set hm.entry hnew fun hpos => ?_
        rw [Tracked.room]
        omega
      exact (enough_callers hset hm.notified).mono (by omega)

theorem workersAll_move (h : WakeInvariant numThreads queueCapacity s)
    (hm : MovesTo s.state c old new effect owner threads)
    (hclosed : effect.pool.isShutdown = true) :
    Enough Thread.asleepNotEmpty Thread.notifiesWorkers threads 1 := by
  refine hm.enough_all wakesUp_workersAll h.workersAll
    (fun hbefore => (hm.moves.of_isShutdown hbefore).1.1) ?_
    (fun hopen => (hm.moves.notifies_of_closes hopen hclosed).2)
  intro hbefore hold
  refine ((hm.moves.of_isShutdown hbefore).2.2 hold).imp_right fun hall => ?_
  exact hm.nobody_asleepNotEmpty hall

theorem callersAll_move (h : WakeInvariant numThreads queueCapacity s)
    (hm : MovesTo s.state c old new effect owner threads)
    (hclosed : effect.pool.isShutdown = true) :
    Enough Thread.asleepNotFull Thread.notifiesCallers threads 1 := by
  refine hm.enough_all wakesUp_callersAll h.callersAll
    (fun hbefore => (hm.moves.of_isShutdown hbefore).1.2) ?_
    (fun hopen => (hm.moves.notifies_of_closes hopen hclosed).1)
  intro hbefore hold
  refine .inr ?_
  exact hm.nobody_asleepNotFull ((hm.moves.of_isShutdown hbefore).2.1 hold)

theorem move (h : WakeInvariant numThreads queueCapacity s)
    (hm : MovesTo s.state c old new effect owner threads)
    (hinv : Invariant numThreads queueCapacity
      { s.state with
        pool := effect.pool
        poolMutex := owner
        joinable := effect.joinable
        threads := threads }) :
    WakeInvariant numThreads queueCapacity
      { state :=
          { s.state with
            pool := effect.pool
            poolMutex := owner
            joinable := effect.joinable
            threads := threads }
        rechecking := old.recheckingAfter s.rechecking } where
  invariant := hinv
  recheck := h.recheck_move hm
  workers := h.workers_move hm
  callers := h.callers_move hm
  workersAll := h.workersAll_move hm
  callersAll := h.callersAll_move hm

end Move

/-- **Every step keeps the wakeups under way.** -/
theorem step (h : WakeInvariant numThreads queueCapacity s) {a : Action}
    {t : Tracked} (hstep : TrackedStep s a t) :
    WakeInvariant numThreads queueCapacity t := by
  have hinv := h.invariant.step hstep.step
  cases hstep with
  | move c old t hc hmoved =>
      cases hmoved with
      | move c old' new effect owner threads hc' hmove howner hnotified =>
          obtain rfl := Option.some.inj (hc.symm.trans hc')
          exact h.move ⟨hc, hmove, howner, hnotified⟩ hinv
  | other a t hother hbegun =>
      cases hbegun with
      | pushTask task => exact h.concat hinv rfl rfl
      | shutdown kind => exact h.concat hinv rfl rfl
      | wakeSpuriously c thread hc => exact h.wakeSpuriously hc hinv
      | move c => exact absurd rfl (hother c)

end WakeInvariant

/-! ## No lost wakeup -/

/-- Whoever sleeps although the predicate it waits for holds, a woken thread
of its kind has yet to evaluate it, or a shutdown call has yet to wake all. -/
structure NoLostWakeup (s : Tracked) : Prop where
  callers : ∀ t ∈ s.state.threads, t.asleepNotFull = true →
    s.state.pool.mayPush = true →
    (∃ t ∈ s.state.threads, t.pushRechecks = true) ∨
      ∃ t ∈ s.state.threads, t.notifiesCallers = true
  workers : ∀ t ∈ s.state.threads, t.asleepNotEmpty = true →
    s.state.pool.mayGrab = true →
    (∃ t ∈ s.state.threads, t.workerNotified = true) ∨
      (s.rechecking = true ∧ ∃ c, s.state.poolMutex = some c ∧
        s.state.threads[c]? = some (.worker .locked)) ∨
      ∃ t ∈ s.state.threads, t.notifiesWorkers = true

theorem WakeInvariant.noLostWakeup {numThreads queueCapacity : Nat}
    {s : Tracked} (h : WakeInvariant numThreads queueCapacity s) :
    NoLostWakeup s where
  callers := by
    intro t ht hasleep hmay
    cases hshutdown : s.state.pool.isShutdown with
    | true =>
        exact .inr ((h.callersAll hshutdown).exists_woken ht hasleep
          Nat.one_pos)
    | false =>
        refine .inl ((h.callers hshutdown).exists_woken ht hasleep ?_)
        have hroom := Pool.room_of_mayPush hmay hshutdown
        unfold Tracked.room
        omega
  workers := by
    intro t ht hasleep hmay
    cases hshutdown : s.state.pool.isShutdown with
    | true =>
        exact .inr (.inr ((h.workersAll hshutdown).exists_woken ht hasleep
          Nat.one_pos))
    | false =>
        cases hrecheck : s.rechecking with
        | true => exact .inr (.inl ⟨rfl, h.recheck hrecheck⟩)
        | false =>
            refine .inl ((h.workers hshutdown).exists_woken ht hasleep ?_)
            have htasks := Pool.tasks_of_mayGrab hmay hshutdown
            unfold Tracked.tasksLeft
            rw [hrecheck, if_neg Bool.false_ne_true]
            exact htasks

/-- A pool of at least one worker keeps one in its table. -/
theorem exists_worker {numThreads queueCapacity : Nat}
    (hthreads : 1 ≤ numThreads) {s : State}
    (hs : Reaches Step (.initial numThreads queueCapacity) s) :
    ∃ t ∈ s.threads, t.isWorker = true := by
  refine hs.invariant (I := fun s => ∃ t ∈ s.threads, t.isWorker = true) ?_
    ⟨.worker .lock, List.mem_replicate.mpr ⟨by omega, rfl⟩, rfl⟩
  rintro s a t hworker hstep
  have hmap : ∀ ts' : List Thread,
      ts'.map Thread.isWorker = s.threads.map Thread.isWorker →
      ∃ t ∈ ts', t.isWorker = true := by
    intro ts' hsame
    have hmem : true ∈ s.threads.map Thread.isWorker := by
      obtain ⟨t, ht, hworker⟩ := hworker
      exact hworker ▸ List.mem_map_of_mem ht
    exact List.mem_map.mp (hsame ▸ hmem)
  obtain ⟨thread, hmem, hthread⟩ := hworker
  cases hstep with
  | pushTask _ => exact ⟨thread, List.mem_append_left _ hmem, hthread⟩
  | shutdown _ => exact ⟨thread, List.mem_append_left _ hmem, hthread⟩
  | wakeSpuriously c t hc =>
      refine hmap _ (map_set_of_eq _ hc ?_)
      rw [Thread.blind_isWorker.wakeNotFull, Thread.blind_isWorker.wakeNotEmpty]
  | move c old new effect owner threads hc hmove howner hnotified =>
      exact hmap _ ((Thread.blind_isWorker.notified hnotified).trans
        (map_set_of_eq _ hc hmove.isWorker_eq))

/-- When all workers sleep and no flag is set, the queue is empty. -/
theorem WakeInvariant.queue_of_workers_asleep {numThreads queueCapacity : Nat}
    {s : Tracked} (h : WakeInvariant numThreads queueCapacity s)
    (hopen : s.state.pool.isShutdown = false)
    (hworker : ∃ t ∈ s.state.threads, t.isWorker = true)
    (hall : ∀ t ∈ s.state.threads, t.isWorker = true →
      t.asleepNotEmpty = true) : s.state.pool.taskQueue = [] := by
  obtain ⟨worker, hmem, hisWorker⟩ := hworker
  have hasleep := hall worker hmem hisWorker
  have hrecheck : s.rechecking = false := by
    cases hrecheck : s.rechecking with
    | false => rfl
    | true =>
        obtain ⟨c, -, hc⟩ := h.recheck hrecheck
        have hlocked := hall _ (List.mem_of_getElem? hc) rfl
        cases hlocked
  by_contra hqueue
  have hleft : 0 < s.tasksLeft := by
    unfold Tracked.tasksLeft
    rw [hrecheck, if_neg Bool.false_ne_true]
    exact List.length_pos_iff.mpr hqueue
  obtain ⟨t, ht, hwoken⟩ := (h.workers hopen).exists_woken hmem hasleep hleft
  have hnotified : t = .worker .notified := by
    unfold Thread.workerNotified at hwoken
    split at hwoken
    · rfl
    · cases hwoken
  have hsleeps := hall t ht (by rw [hnotified]; rfl)
  rw [hnotified] at hsleeps
  cases hsleeps

/-- **No wakeup of the thread pool is lost**, whatever `numThreads`,
`queueCapacity` and the interleaving.

While there is no shutdown, a caller and all workers sleep at once only if
another caller has been woken and is about to look at the queue again. -/
theorem no_lost_wakeup (numThreads queueCapacity : Nat)
    (hthreads : 1 ≤ numThreads) :
    (∀ s, Reaches Step (.initial numThreads queueCapacity) s →
      ∃ rechecking, Reaches TrackedStep (.initial numThreads queueCapacity)
        { state := s, rechecking := rechecking }) ∧
      ∀ s, Reaches TrackedStep (.initial numThreads queueCapacity) s →
        NoLostWakeup s ∧
        (1 ≤ queueCapacity → s.state.pool.isShutdown = false →
          (∃ t ∈ s.state.threads, t.asleepNotFull = true) →
          (∀ t ∈ s.state.threads, t.isWorker = true →
            t.asleepNotEmpty = true) →
          ∃ t ∈ s.state.threads, t.pushRechecks = true) := by
  refine ⟨fun s hs => exists_tracked hs, fun s hs => ?_⟩
  have hinv := hs.invariant (fun _ _ _ h hstep => h.step hstep)
    (wakeInvariant_initial numThreads queueCapacity)
  refine ⟨hinv.noLostWakeup, ?_⟩
  rintro hcapacity hopen ⟨t, ht, hasleep⟩ hall
  have hqueue := hinv.queue_of_workers_asleep hopen
    (exists_worker hthreads (untracked hs)) hall
  refine (hinv.callers hopen).exists_woken ht hasleep ?_
  unfold Tracked.room
  rw [hqueue, hinv.invariant.pool.maxQueueSize_eq, List.length_nil]
  exact hcapacity

/-- One worker and one slot: the first task is executed, the second call
sleeps and the third has been woken. -/
def allAsleepButOne : State :=
  { pool :=
      { Pool.initial 1 with
        accepted := [(1, ⟨1, "a"⟩)]
        dequeued := [(1, ⟨1, "a"⟩)]
        resolved := [((1, ⟨1, "a"⟩), ⟨1, "Processed: a"⟩)] }
    poolMutex := none
    numThreads := 1
    joinable := [true]
    threads :=
      [.worker .asleep, .push ⟨1, "a"⟩ .returned, .push ⟨2, "b"⟩ .asleep,
        .push ⟨3, "c"⟩ .notified] }

theorem reaches_allAsleepButOne :
    Reaches Step (.initial 1 1) allAsleepButOne := by
  have hbegun : Step (.initial 1 1) (.pushTask ⟨1, "a"⟩) _ := .pushTask _ _
  have hcalled := ((Reaches.single hbegun).tail
    (.pushTask _ ⟨2, "b"⟩)).tail (.pushTask _ ⟨3, "c"⟩)
  have hpushed := (hcalled.tail
    (.move _ 1 _ _ _ _ _ rfl (.pushLocks _) rfl (.nobody _))).tail
    (.move _ 1 _ _ _ _ _ rfl (.pushes _ _ false rfl rfl) rfl
      (.oneNotEmpty _ _ (.nobody (by decide))))
  have hsecond := (hpushed.tail
    (.move _ 2 _ _ _ _ _ rfl (.pushLocks _) rfl (.nobody _))).tail
    (.move _ 2 _ _ _ _ _ rfl (.pushWaits _ _ false rfl rfl) rfl (.nobody _))
  have hthird := (hsecond.tail
    (.move _ 3 _ _ _ _ _ rfl (.pushLocks _) rfl (.nobody _))).tail
    (.move _ 3 _ _ _ _ _ rfl (.pushWaits _ _ false rfl rfl) rfl (.nobody _))
  -- the worker frees the slot and wakes the third call
  have hgrabbed := (hthird.tail
    (.move _ 0 _ _ _ _ _ rfl .workerLocks rfl (.nobody _))).tail
    (.move _ 0 _ _ _ _ _ rfl (.workerGrabs _ _ rfl) rfl
      (.oneNotFull _ _ (.one 3 _ rfl rfl)))
  have hresolved := hgrabbed.tail
    (.move _ 0 _ _ _ _ _ rfl (.workerResolves _ _ rfl) rfl (.nobody _))
  exact (hresolved.tail
    (.move _ 0 _ _ _ _ _ rfl .workerLocks rfl (.nobody _))).tail
    (.move _ 0 _ _ _ _ _ rfl (.workerWaits rfl) rfl (.nobody _))

/-- There the caller that has been woken is the third. -/
theorem no_lost_wakeup_third :
    ∃ t ∈ allAsleepButOne.threads, t.pushRechecks = true := by
  have hpool := no_lost_wakeup 1 1 (Nat.le_refl 1)
  obtain ⟨rechecking, htracked⟩ := hpool.1 _ reaches_allAsleepButOne
  have hcaller : Thread.push ⟨2, "b"⟩ .asleep ∈ allAsleepButOne.threads := by
    decide
  have hworkers : ∀ t ∈ allAsleepButOne.threads, t.isWorker = true →
      t.asleepNotEmpty = true := by decide
  exact (hpool.2 _ htracked).2 (Nat.le_refl 1) rfl ⟨_, hcaller, rfl⟩ hworkers

/-- **A caller and all workers asleep at once**, none of them woken, with no
shutdown and an empty queue. -/
theorem all_asleep_but_one :
    ∃ s, Reaches Step (.initial 1 1) s ∧ s.pool.isShutdown = false ∧
      s.pool.taskQueue = [] ∧
      (∃ t ∈ s.threads, t.asleepNotFull = true) ∧
      ∀ t ∈ s.threads, t.isWorker = true → t.asleepNotEmpty = true :=
  ⟨allAsleepButOne, reaches_allAsleepButOne, rfl, rfl,
    ⟨.push ⟨2, "b"⟩ .asleep, by decide, rfl⟩, by decide⟩

end GoPrep.Ports.ThreadPool
