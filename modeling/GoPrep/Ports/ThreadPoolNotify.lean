import GoPrep.Ports.ThreadPoolTasks
import GoPrep.Verified.Wakeups

/-!
# Wakeups in the thread pool

`workerLoop` and `pushTask` wake one sleeper of the other kind for every slot
they free or fill, while they hold the mutex.  A woken thread may find that a
newcomer was faster, but then the newcomer has used what it was woken for.  A
shutdown call wakes everybody after it has released the mutex.

## Main results

* `Moves.workers_le`, `Moves.callers_le` — what a move adds for others to do
  comes with a wakeup, and a wakeup that it uses up it has put to use.
* `MovesTo.enough_all` — with a flag set a shutdown call is about to wake all.
-/

namespace GoPrep.Ports.ThreadPool

open GoPrep.Verified.ThreadTable
open GoPrep.Verified.Wakeups

/-! ## Who is about to look again -/

namespace Thread

/-- A worker that was woken, if only spuriously, and has not taken the mutex
again. -/
def workerNotified : Thread → Bool
  | .worker .notified => true
  | _ => false

/-- A `pushTask` call that was woken, if only spuriously, and has not looked at
the queue again. -/
def pushRechecks : Thread → Bool
  | .push _ .notified => true
  | .push _ .relocked => true
  | _ => false

/-- A shutdown call about to notify all sleepers of `cvNotFull`. -/
def notifiesCallers : Thread → Bool
  | .shutdown _ .notifyNotFull => true
  | _ => false

/-- A shutdown call about to notify all sleepers of `cvNotEmpty`. -/
def notifiesWorkers : Thread → Bool
  | .shutdown _ .notifyNotFull => true
  | .shutdown _ .notifyNotEmpty => true
  | _ => false

/-- Whether the worker with the mutex was woken, after a move from `old`. -/
def recheckingAfter (old : Thread) (rechecking : Bool) : Bool :=
  match old with
  | .worker .notified => true
  | _ => if old.holdsMutex then false else rechecking

theorem wakeNotEmpty_awake (t : Thread) :
    t.wakeNotEmpty.asleepNotEmpty = false := by
  unfold wakeNotEmpty
  split
  · rfl
  next hawake =>
    unfold asleepNotEmpty
    split
    · exact absurd rfl hawake
    · rfl

theorem wakeNotFull_awake (t : Thread) :
    t.wakeNotFull.asleepNotFull = false := by
  unfold wakeNotFull
  split
  · rfl
  next hawake =>
    unfold asleepNotFull
    split
    · exact absurd rfl (hawake _)
    · rfl

end Thread

/-! ## Notifications -/

/-- The workers a notification wakes for sure, if any sleeps. -/
def Notification.wakesWorker : Notification → Nat
  | .oneNotEmpty => 1
  | _ => 0

/-- The callers a notification wakes for sure, if any sleeps. -/
def Notification.wakesCaller : Notification → Nat
  | .oneNotFull => 1
  | _ => 0

/-- A wake puts nobody to sleep and leaves the woken threads woken. -/
structure WakesUp (asleep woken : Thread → Bool) : Prop where
  workerAsleep : asleep (.worker .notified) = true →
    asleep (.worker .asleep) = true
  workerWoken : woken (.worker .asleep) = true →
    woken (.worker .notified) = true
  pushAsleep : ∀ task, asleep (.push task .notified) = true →
    asleep (.push task .asleep) = true
  pushWoken : ∀ task, woken (.push task .asleep) = true →
    woken (.push task .notified) = true

namespace WakesUp

variable {asleep woken : Thread → Bool}

theorem asleep_notEmpty (h : WakesUp asleep woken) (t : Thread)
    (ht : asleep t.wakeNotEmpty = true) : asleep t = true := by
  unfold Thread.wakeNotEmpty at ht
  split at ht
  · exact h.workerAsleep ht
  · exact ht

theorem woken_notEmpty (h : WakesUp asleep woken) (t : Thread)
    (ht : woken t = true) : woken t.wakeNotEmpty = true := by
  unfold Thread.wakeNotEmpty
  split
  · exact h.workerWoken ht
  · exact ht

theorem asleep_notFull (h : WakesUp asleep woken) (t : Thread)
    (ht : asleep t.wakeNotFull = true) : asleep t = true := by
  unfold Thread.wakeNotFull at ht
  split at ht
  · exact h.pushAsleep _ ht
  · exact ht

theorem woken_notFull (h : WakesUp asleep woken) (t : Thread)
    (ht : woken t = true) : woken t.wakeNotFull = true := by
  unfold Thread.wakeNotFull
  split
  · exact h.pushWoken _ ht
  · exact ht

/-- **No notification takes a wakeup away.** -/
theorem notified (h : WakesUp asleep woken) {ts ts' : List Thread}
    {needed : Nat} (henough : Enough asleep woken ts needed)
    {notification : Notification} (hts : Notified notification ts ts') :
    Enough asleep woken ts' needed := by
  cases hts with
  | nobody => exact henough
  | oneNotEmpty _ _ hone =>
      cases hone with
      | nobody _ => exact henough
      | one i t ht _ =>
          exact henough.wakeOne _ h.asleep_notEmpty h.woken_notEmpty ht
  | oneNotFull _ _ hone =>
      cases hone with
      | nobody _ => exact henough
      | one i t ht _ =>
          exact henough.wakeOne _ h.asleep_notFull h.woken_notFull ht
  | allNotEmpty => exact henough.wakeAll _ h.asleep_notEmpty h.woken_notEmpty
  | allNotFull => exact henough.wakeAll _ h.asleep_notFull h.woken_notFull

/-- Nor does a spurious wakeup. -/
theorem wakeSpuriously (h : WakesUp asleep woken) {ts : List Thread}
    {needed : Nat} (henough : Enough asleep woken ts needed) {c : Nat}
    {t : Thread} (ht : ts[c]? = some t) :
    Enough asleep woken (ts.set c t.wakeNotEmpty.wakeNotFull) needed :=
  henough.wakeOne (fun t => t.wakeNotEmpty.wakeNotFull)
    (fun t hasleep => h.asleep_notEmpty t (h.asleep_notFull _ hasleep))
    (fun t hwoken => h.woken_notFull _ (h.woken_notEmpty t hwoken)) ht

end WakesUp

theorem wakesUp_workers :
    WakesUp Thread.asleepNotEmpty Thread.workerNotified :=
  ⟨fun _ => rfl, fun _ => rfl, fun _ h => h, fun _ h => h⟩

theorem wakesUp_callers : WakesUp Thread.asleepNotFull Thread.pushRechecks :=
  ⟨fun h => h, fun h => h, fun _ _ => rfl, fun _ _ => rfl⟩

theorem wakesUp_workersAll :
    WakesUp Thread.asleepNotEmpty Thread.notifiesWorkers :=
  ⟨fun _ => rfl, fun h => h, fun _ h => h, fun _ h => h⟩

theorem wakesUp_callersAll :
    WakesUp Thread.asleepNotFull Thread.notifiesCallers :=
  ⟨fun h => h, fun h => h, fun _ _ => rfl, fun _ h => h⟩

/-- `notify_one` on `cvNotEmpty` pays for one more task. -/
theorem enough_workers {ts ts' : List Thread} {needed : Nat}
    (h : Enough Thread.asleepNotEmpty Thread.workerNotified ts needed)
    {notification : Notification} (hts : Notified notification ts ts') :
    Enough Thread.asleepNotEmpty Thread.workerNotified ts'
      (needed + notification.wakesWorker) := by
  have hsame := wakesUp_workers.notified h hts
  cases hts with
  | oneNotEmpty _ _ hone =>
      refine h.notifyOne (fun t ht => ?_) hone
      unfold Thread.asleepNotEmpty at ht
      split at ht
      · exact ⟨rfl, rfl⟩
      · cases ht
  | _ => exact hsame

/-- `notify_one` on `cvNotFull` pays for one more slot. -/
theorem enough_callers {ts ts' : List Thread} {needed : Nat}
    (h : Enough Thread.asleepNotFull Thread.pushRechecks ts needed)
    {notification : Notification} (hts : Notified notification ts ts') :
    Enough Thread.asleepNotFull Thread.pushRechecks ts'
      (needed + notification.wakesCaller) := by
  have hsame := wakesUp_callers.notified h hts
  cases hts with
  | oneNotFull _ _ hone =>
      refine h.notifyOne (fun t ht => ?_) hone
      unfold Thread.asleepNotFull at ht
      split at ht
      · exact ⟨rfl, rfl⟩
      · cases ht
  | _ => exact hsame

/-! ## What a move needs and leaves -/

namespace Pool

/-- A worker goes to sleep on an empty queue of an open pool. -/
theorem of_workerChoice_wait {p : Pool} (h : p.workerChoice = .wait) :
    p.taskQueue = [] ∧ p.isShutdown = false := by
  unfold workerChoice at h
  split at h
  next hwait =>
    simp only [mayGrab, Bool.not_eq_true', Bool.or_eq_false_iff,
      Bool.not_eq_false', List.isEmpty_iff] at hwait
    exact ⟨hwait.1.1, by simp [isShutdown, hwait]⟩
  · repeat' split at h
    all_goals cases h

/-- A caller goes to sleep on a full queue of an open pool. -/
theorem of_pushChoice_wait {p : Pool} {waited : Bool}
    (h : p.pushChoice waited = .wait) :
    p.maxQueueSize ≤ p.taskQueue.length ∧ p.isShutdown = false := by
  unfold pushChoice at h
  split at h
  · cases h
  split at h
  next hwait =>
    simp only [mayPush, Bool.not_eq_true', Bool.or_eq_false_iff,
      decide_eq_false_iff_not, Nat.not_lt] at hwait
    exact ⟨hwait.1.1, by simp [isShutdown, hwait]⟩
  · split at h <;> cases h

/-- Only a shutdown makes a call throw. -/
theorem of_pushChoice_throw {p : Pool} {waited : Bool} {what : String}
    (h : p.pushChoice waited = .throw what) : p.isShutdown = true := by
  unfold pushChoice at h
  split at h
  next hclosed => exact (Bool.and_eq_true_iff.mp hclosed).2
  split at h
  · cases h
  split at h
  next hclosed => exact hclosed
  · cases h

theorem isShutdown_close (p : Pool) (kind : ShutdownKind) :
    (p.close kind).isShutdown = true := by
  cases kind <;> simp [close, isShutdown]

theorem isShutdown_of_leave {p : Pool} (h : p.workerChoice = .leave) :
    p.isShutdown = true := by
  rw [isShutdown, Bool.or_eq_true]
  rcases of_workerChoice_leave h with himm | ⟨hgraceful, -⟩
  · exact .inr himm
  · exact .inl hgraceful

/-- The queue has room where a sleeping caller could go on. -/
theorem room_of_mayPush {p : Pool} (h : p.mayPush = true)
    (hopen : p.isShutdown = false) : p.taskQueue.length < p.maxQueueSize := by
  simp only [isShutdown, Bool.or_eq_false_iff] at hopen
  simpa [mayPush, hopen] using h

/-- The queue holds a task where a sleeping worker could go on. -/
theorem tasks_of_mayGrab {p : Pool} (h : p.mayGrab = true)
    (hopen : p.isShutdown = false) : 0 < p.taskQueue.length := by
  simp only [isShutdown, Bool.or_eq_false_iff] at hopen
  simpa [mayGrab, hopen, List.length_pos_iff] using h

theorem of_setValue {p q : Pool} {e : Entry} {value : Result}
    (h : p.setValue e value = some q) :
    q = { p with resolved := p.resolved ++ [(e, value)] } := by
  unfold setValue at h
  split at h
  · cases h
  · exact (Option.some.inj h).symm

end Pool

namespace Moves

variable {s : State} {c : Nat} {old new : Thread} {effect : Effect}

theorem queue_of_asleep (h : Moves s c old new effect)
    (hnew : new.asleepNotEmpty = true) :
    effect.pool.taskQueue = [] ∧ effect.pool.isShutdown = false := by
  cases h with
  | workerWaits hchoice => exact Pool.of_workerChoice_wait hchoice
  | _ => cases hnew

theorem full_of_asleep (h : Moves s c old new effect)
    (hnew : new.asleepNotFull = true) :
    effect.pool.maxQueueSize ≤ effect.pool.taskQueue.length ∧
      effect.pool.isShutdown = false := by
  cases h with
  | pushWaits task pc waited _ hchoice => exact Pool.of_pushChoice_wait hchoice
  | _ => cases hnew

/-- **A move of an awake thread, for the workers.**  A task that it adds comes
with a wakeup, and a wakeup that it uses up it has used to take a task. -/
theorem workers_le (h : Moves s c old new effect)
    (hnew : new.asleepNotEmpty = false)
    (hopen : effect.pool.isShutdown = false) {rechecking : Bool}
    (hrecheck : old ≠ .worker .locked →
      old.holdsMutex = true ∨ new.holdsMutex = true → rechecking = false) :
    effect.pool.taskQueue.length + (if rechecking then 1 else 0) +
        (if old.workerNotified then 1 else 0) ≤
      s.pool.taskQueue.length +
        (if old.recheckingAfter rechecking then 1 else 0) +
        (if new.workerNotified then 1 else 0) +
        effect.notification.wakesWorker := by
  cases h with
  | workerRelocks =>
      rw [hrecheck (by simp) (.inr rfl)]
      exact Nat.le_refl _
  | workerGrabs e rest hchoice =>
      obtain ⟨-, hqueue⟩ := Pool.of_workerChoice_grab hchoice
      rw [hqueue, List.length_cons]
      show rest.length + (if rechecking then 1 else 0) + 0 ≤
        rest.length + 1 + 0 + 0 + 0
      split <;> omega
  | workerWaits _ => cases hnew
  | workerLeaves hchoice =>
      exact absurd (hopen.symm.trans (Pool.isShutdown_of_leave hchoice))
        (by simp)
  | workerFaults hchoice =>
      exact absurd hchoice s.pool.workerChoice_ne_undefined
  | workerResolves e pool hset =>
      rw [Pool.of_setValue hset]
      exact Nat.le_refl _
  | pushWaits task pc waited hpc _ =>
      rw [hrecheck (by simp) (.inl (by cases waited <;> subst hpc <;> rfl))]
      exact Nat.le_add_right _ _
  | pushThrows task pc waited what hpc _ =>
      rw [hrecheck (by simp) (.inl (by cases waited <;> subst hpc <;> rfl))]
      exact Nat.le_add_right _ _
  | pushes task pc waited hpc _ =>
      rw [hrecheck (by simp) (.inl (by cases waited <;> subst hpc <;> rfl))]
      show (s.pool.taskQueue ++ [(c, task)]).length + 0 + 0 ≤
        s.pool.taskQueue.length + _ + 0 + 1
      rw [List.length_append, List.length_singleton]
      omega
  | shutdownReturns kind hclosed =>
      exact absurd (hopen.symm.trans hclosed) (by simp)
  | shutdownCloses kind _ =>
      exact absurd (hopen.symm.trans (s.pool.isShutdown_close kind)) (by simp)
  | _ => exact Nat.le_refl _

/-- **A move of an awake thread, for the callers.**  A slot that it frees comes
with a wakeup, and a wakeup that it uses up it has used to take a slot. -/
theorem callers_le (h : Moves s c old new effect)
    (hnew : new.asleepNotFull = false)
    (hopen : effect.pool.isShutdown = false) :
    effect.pool.maxQueueSize - effect.pool.taskQueue.length +
        (if old.pushRechecks then 1 else 0) ≤
      s.pool.maxQueueSize - s.pool.taskQueue.length +
        (if new.pushRechecks then 1 else 0) +
        effect.notification.wakesCaller := by
  cases h with
  | workerGrabs e rest hchoice =>
      obtain ⟨-, hqueue⟩ := Pool.of_workerChoice_grab hchoice
      rw [hqueue, List.length_cons]
      show s.pool.maxQueueSize - rest.length + 0 ≤
        s.pool.maxQueueSize - (rest.length + 1) + 0 + 1
      omega
  | workerLeaves hchoice =>
      exact absurd (hopen.symm.trans (Pool.isShutdown_of_leave hchoice))
        (by simp)
  | workerResolves e pool hset =>
      rw [Pool.of_setValue hset]
      exact Nat.le_refl _
  | pushWaits _ _ _ _ _ => cases hnew
  | pushThrows task pc waited what _ hchoice =>
      exact absurd (hopen.symm.trans (Pool.of_pushChoice_throw hchoice))
        (by simp)
  | pushes task pc waited hpc hchoice =>
      obtain ⟨-, hroom⟩ := Pool.of_pushChoice_push hchoice
      have hone : (if (Thread.push task pc).pushRechecks then 1 else 0) ≤ 1 :=
        by split <;> omega
      show s.pool.maxQueueSize - (s.pool.taskQueue ++ [(c, task)]).length + _ ≤
        s.pool.maxQueueSize - s.pool.taskQueue.length + 0 + 0
      rw [List.length_append, List.length_singleton]
      omega
  | shutdownReturns kind hclosed =>
      exact absurd (hopen.symm.trans hclosed) (by simp)
  | shutdownCloses kind _ =>
      exact absurd (hopen.symm.trans (s.pool.isShutdown_close kind)) (by simp)
  | _ => exact Nat.le_refl _

/-- With a flag set nobody goes to sleep any more, and a shutdown call goes on
to its broadcasts. -/
theorem of_isShutdown (h : Moves s c old new effect)
    (hclosed : s.pool.isShutdown = true) :
    (new.asleepNotEmpty = false ∧ new.asleepNotFull = false) ∧
      (old.notifiesCallers = true → effect.notification = .allNotFull) ∧
      (old.notifiesWorkers = true → new.notifiesWorkers = true ∨
        effect.notification = .allNotEmpty) := by
  cases h with
  | workerWaits hchoice =>
      have hopen := (Pool.of_workerChoice_wait hchoice).2
      exact absurd (hopen.symm.trans hclosed) (by simp)
  | pushWaits task pc waited _ hchoice =>
      have hopen := (Pool.of_pushChoice_wait hchoice).2
      exact absurd (hopen.symm.trans hclosed) (by simp)
  | shutdownCloses kind hopen =>
      exact absurd (hopen.symm.trans hclosed) (by simp)
  | notifiesNotFull kind =>
      exact ⟨⟨rfl, rfl⟩, fun _ => rfl, fun _ => .inl rfl⟩
  | notifiesNotEmpty kind =>
      exact ⟨⟨rfl, rfl⟩, fun h => Bool.noConfusion h, fun _ => .inr rfl⟩
  | pushThrows _ _ _ _ _ _ | pushes _ _ _ _ _ =>
      exact ⟨⟨rfl, rfl⟩, fun h => Bool.noConfusion h,
        fun h => Bool.noConfusion h⟩
  | _ =>
      exact ⟨⟨rfl, rfl⟩, fun h => Bool.noConfusion h,
        fun h => Bool.noConfusion h⟩

/-- The call that sets a flag is about to notify everybody. -/
theorem notifies_of_closes (h : Moves s c old new effect)
    (hopen : s.pool.isShutdown = false)
    (hclosed : effect.pool.isShutdown = true) :
    new.notifiesCallers = true ∧ new.notifiesWorkers = true := by
  cases h with
  | shutdownCloses kind _ => exact ⟨rfl, rfl⟩
  | workerResolves e pool hset =>
      rw [Pool.of_setValue hset] at hclosed
      exact absurd (hopen.symm.trans hclosed) (by simp)
  | _ => exact absurd (hopen.symm.trans hclosed) (by simp)

end Moves

/-! ## A move and its notification -/

/-- Thread `c` moves from `old` to `new`, leaving `owner` and `threads`. -/
structure MovesTo (s : State) (c : Nat) (old new : Thread) (effect : Effect)
    (owner : Option Nat) (threads : List Thread) : Prop where
  entry : s.threads[c]? = some old
  moves : Moves s c old new effect
  acquires : acquire s.poolMutex c old new = some owner
  notified : Notified effect.notification (s.threads.set c new) threads

namespace MovesTo

variable {s : State} {c : Nat} {old new : Thread} {effect : Effect}
variable {owner : Option Nat} {threads : List Thread}

/-- A worker with the mutex is not what a notification wakes. -/
theorem locked_stays (hm : MovesTo s c old new effect owner threads) {d : Nat}
    (hd : (s.threads.set c new)[d]? = some (.worker .locked)) :
    threads[d]? = some (.worker .locked) := by
  have hblind : Thread.Blind fun t => t = Thread.worker .locked :=
    ⟨propext ⟨nofun, nofun⟩, fun _ => propext ⟨nofun, nofun⟩⟩
  have hsame := congrArg (fun l => l[d]?) (hblind.notified hm.notified)
  simp only [List.getElem?_map, hd, Option.map_some] at hsame
  obtain ⟨t, ht, hworker⟩ := Option.map_eq_some_iff.mp hsame
  rw [ht, of_eq_true hworker]

/-- A pool that is open after a move was open before. -/
theorem open_before (hm : MovesTo s c old new effect owner threads)
    (hopen : effect.pool.isShutdown = false) : s.pool.isShutdown = false := by
  cases hclosed : s.pool.isShutdown with
  | false => rfl
  | true =>
      have hlater := hm.moves.poolChange.later.isShutdown hclosed
      exact absurd (hopen.symm.trans hlater) (by simp)

/-- A woken worker that moves takes the mutex. -/
theorem rechecks
    (hm : MovesTo s c (.worker .notified) new effect owner threads) :
    owner = some c ∧ threads[c]? = some (.worker .locked) := by
  have hacquires := hm.acquires
  have hentry := hm.entry
  cases hm.moves with
  | workerRelocks =>
      refine ⟨?_, hm.locked_stays ?_⟩
      · unfold acquire at hacquires
        simp only [Thread.holdsMutex] at hacquires
        split at hacquires
        · exact (Option.some.inj hacquires).symm
        · cases hacquires
      · rw [getElem?_set_eq hentry, if_pos rfl]

/-- A broadcast leaves nobody asleep. -/
theorem nobody_asleepNotEmpty
    (hm : MovesTo s c old new effect owner threads)
    (hall : effect.notification = .allNotEmpty) :
    ∀ t ∈ threads, t.asleepNotEmpty = false := by
  have hnotified := hm.notified
  rw [hall] at hnotified
  cases hnotified with
  | allNotEmpty =>
      intro t ht
      obtain ⟨t', -, rfl⟩ := List.mem_map.mp ht
      exact t'.wakeNotEmpty_awake

theorem nobody_asleepNotFull
    (hm : MovesTo s c old new effect owner threads)
    (hall : effect.notification = .allNotFull) :
    ∀ t ∈ threads, t.asleepNotFull = false := by
  have hnotified := hm.notified
  rw [hall] at hnotified
  cases hnotified with
  | allNotFull =>
      intro t ht
      obtain ⟨t', -, rfl⟩ := List.mem_map.mp ht
      exact t'.wakeNotFull_awake

/-- **With a flag set** somebody is about to wake all, or nobody sleeps. -/
theorem enough_all (hm : MovesTo s c old new effect owner threads)
    {asleep woken : Thread → Bool} (hwakes : WakesUp asleep woken)
    (henough : s.pool.isShutdown = true → Enough asleep woken s.threads 1)
    (hnew : s.pool.isShutdown = true → asleep new = false)
    (hkeeps : s.pool.isShutdown = true → woken old = true →
      woken new = true ∨ ∀ t ∈ threads, asleep t = false)
    (hcloses : s.pool.isShutdown = false → woken new = true) :
    Enough asleep woken threads 1 := by
  cases hclosed : s.pool.isShutdown with
  | false =>
      have hmem : new ∈ s.threads.set c new :=
        List.mem_set (lt_length_of_getElem? hm.entry) new
      exact hwakes.notified (.of_mem hmem (hcloses hclosed)) hm.notified
  | true =>
      by_cases hnobody : ∀ t ∈ threads, asleep t = false
      · exact .inl hnobody
      · refine hwakes.notified ?_ hm.notified
        refine (henough hclosed).set hm.entry (hnew hclosed) fun _ => ?_
        cases hold : woken old with
        | false => exact Nat.le_add_right _ _
        | true =>
            have hwoken := (hkeeps hclosed hold).resolve_right hnobody
            exact Nat.le_of_eq (by rw [hwoken])

end MovesTo

end GoPrep.Ports.ThreadPool
