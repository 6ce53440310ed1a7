import GoPrep.Ports.ThreadPool

/-!
# Every task of the thread pool is accounted for

The pool is first seen as a machine of its own: `PoolChange` lists what one
critical section, or one `set_value`, can do to it, and `Later` what no such
change undoes.  A thread is then checked against the pool by `Thread.Ok`, and
`Balance` counts, for every task, the places where it can be.

## Main results

* `Invariant.step` — the invariant of all interleavings.
* `tasks_accounted_for` — in every reachable state the queue is within its
  bound and in order of acceptance, every accepted task is in exactly one
  place, and a `gracefulShutdown` that set its flag has returned only with all
  accepted tasks resolved; no task is accepted once a flag is set, and none
  dequeued once `isImmediateShutdown` is.
-/

namespace GoPrep.Ports.ThreadPool

open GoPrep.Verified.ThreadTable
open GoPrep.Verified.Transition

/-! ## The pool as a machine -/

namespace Pool

theorem of_workerChoice_grab {p : Pool} {e : Entry} {rest : List Entry}
    (h : p.workerChoice = .grab e rest) :
    p.isImmediateShutdown = false ∧ p.taskQueue = e :: rest := by
  unfold workerChoice at h
  split at h
  · cases h
  split at h
  · cases h
  next himm =>
    split at h
    · cases h
    split at h
    · cases h
    next e' rest' hqueue =>
      cases h
      exact ⟨by simpa using himm, hqueue⟩

theorem of_workerChoice_leave {p : Pool} (h : p.workerChoice = .leave) :
    p.isImmediateShutdown = true ∨
      (p.isGracefulShutdown = true ∧ p.taskQueue = []) := by
  unfold workerChoice at h
  split at h
  · cases h
  split at h
  next himm => exact .inl himm
  split at h
  next hdrained => exact .inr (by simpa using hdrained)
  · split at h <;> cases h

/-- A worker past its predicate and its two checks finds a task. -/
theorem workerChoice_ne_undefined (p : Pool) :
    p.workerChoice ≠ .undefined := by
  intro h
  unfold workerChoice at h
  split at h
  · cases h
  next hgrab =>
    split at h
    · cases h
    next himm =>
      split at h
      · cases h
      next hgraceful =>
        split at h
        next hqueue => simp_all [mayGrab]
        · cases h

theorem of_pushChoice_push {p : Pool} {waited : Bool}
    (h : p.pushChoice waited = .push) :
    p.isShutdown = false ∧ p.taskQueue.length < p.maxQueueSize := by
  unfold pushChoice at h
  split at h
  · cases h
  split at h
  · cases h
  next hroom =>
    split at h
    · cases h
    next hopen =>
      have hclosed : p.isShutdown = false := by simpa using hopen
      refine ⟨hclosed, ?_⟩
      simp only [isShutdown, Bool.or_eq_false_iff] at hclosed
      simpa [mayPush, hclosed] using hroom

/-- The flag a shutdown call sets. -/
def flag (p : Pool) : ShutdownKind → Bool
  | .graceful => p.isGracefulShutdown
  | .immediate => p.isImmediateShutdown

@[simp] theorem flag_close (p : Pool) (kind : ShutdownKind) :
    (p.close kind).flag kind = true := by
  cases kind <;> rfl

end Pool

/-- What a move of thread `c` can do to the pool. -/
inductive PoolChange (c : Nat) (p : Pool) : Pool → Prop
  | same : PoolChange c p p
  | grab (e : Entry) (rest : List Entry) : p.isImmediateShutdown = false →
      p.taskQueue = e :: rest → PoolChange c p (p.grab e rest)
  | push (task : Task) : p.isShutdown = false →
      p.taskQueue.length < p.maxQueueSize → PoolChange c p (p.push c task)
  | resolve (e : Entry) :
      PoolChange c p { p with resolved := p.resolved ++ [(e, process e.2)] }
  | close (kind : ShutdownKind) : p.isShutdown = false →
      PoolChange c p (p.close kind)

theorem Moves.poolChange {s : State} {c : Nat} {old new : Thread}
    {effect : Effect} (h : Moves s c old new effect) :
    PoolChange c s.pool effect.pool := by
  cases h with
  | workerGrabs e rest hchoice =>
      obtain ⟨himm, hqueue⟩ := Pool.of_workerChoice_grab hchoice
      exact .grab e rest himm hqueue
  | workerResolves e pool hset =>
      unfold Pool.setValue at hset
      split at hset
      · cases hset
      · cases hset
        exact .resolve e
  | pushes task pc waited _ hchoice =>
      obtain ⟨hopen, hroom⟩ := Pool.of_pushChoice_push hchoice
      exact .push task hopen hroom
  | shutdownCloses kind hopen => exact .close kind hopen
  | _ => exact .same

/-- The invariant of the pool alone. -/
structure PoolInvariant (queueCapacity : Nat) (p : Pool) : Prop where
  maxQueueSize_eq : p.maxQueueSize = queueCapacity
  fifo : p.accepted = p.dequeued ++ p.dropped ++ p.taskQueue
  bounded : p.taskQueue.length ≤ p.maxQueueSize
  results : ∀ done ∈ p.resolved, done.2 = process done.1.2
  oneFlag : p.isGracefulShutdown = true → p.isImmediateShutdown = false
  drained : p.isImmediateShutdown = true → p.taskQueue = []
  dropped : p.isImmediateShutdown = false → p.dropped = []

theorem poolInvariant_initial (queueCapacity : Nat) :
    PoolInvariant queueCapacity (.initial queueCapacity) := by
  constructor <;> simp [Pool.initial]

/-- **Every change preserves the pool's invariant.** -/
theorem PoolInvariant.change {queueCapacity c : Nat} {p q : Pool}
    (h : PoolInvariant queueCapacity p) (hpq : PoolChange c p q) :
    PoolInvariant queueCapacity q := by
  cases hpq with
  | same => exact h
  | grab e rest himm hqueue =>
      have hfifo := h.fifo
      have hbounded := h.bounded
      rw [hqueue] at hfifo hbounded
      rw [List.length_cons] at hbounded
      exact
        { h with
          fifo := by
            show p.accepted = p.dequeued ++ [e] ++ p.dropped ++ rest
            rw [hfifo, h.dropped himm]
            simp
          bounded := Nat.le_of_succ_le hbounded
          drained := fun himm' => absurd (himm.symm.trans himm') (by simp) }
  | push task hopen hroom =>
      have himm : p.isImmediateShutdown = false := by
        simp [Pool.isShutdown] at hopen
        exact hopen.2
      exact
        { h with
          fifo := by
            show p.accepted ++ [(c, task)] =
              p.dequeued ++ p.dropped ++ (p.taskQueue ++ [(c, task)])
            rw [h.fifo, List.append_assoc]
          bounded := by
            show (p.taskQueue ++ [(c, task)]).length ≤ p.maxQueueSize
            rw [List.length_append, List.length_singleton]
            exact hroom
          drained := fun himm' => absurd (himm.symm.trans himm') (by simp) }
  | resolve e =>
      refine { h with results := fun done hdone => ?_ }
      rcases List.mem_append.mp hdone with hdone | hdone
      · exact h.results done hdone
      · obtain rfl := List.mem_singleton.mp hdone
        rfl
  | close kind hopen =>
      simp only [Pool.isShutdown, Bool.or_eq_false_iff] at hopen
      cases kind with
      | graceful =>
          exact { h with oneFlag := fun _ => hopen.2 }
      | immediate =>
          exact
            { h with
              fifo := by
                show p.accepted =
                  p.dequeued ++ (p.dropped ++ p.taskQueue) ++ []
                rw [h.fifo, List.append_nil, List.append_assoc]
              bounded := Nat.zero_le _
              oneFlag := fun hgraceful =>
                absurd (hopen.1.symm.trans hgraceful) (by simp)
              drained := fun _ => rfl
              dropped := fun himm => Bool.noConfusion himm }

/-- What no change undoes. -/
structure Later (p q : Pool) : Prop where
  flag : ∀ kind, p.flag kind = true → q.flag kind = true
  accepted : p.isShutdown = true → q.accepted = p.accepted
  dequeued : p.isImmediateShutdown = true → q.dequeued = p.dequeued
  drained : p.isShutdown = true → p.taskQueue = [] → q.taskQueue = []

theorem Later.refl (p : Pool) : Later p p :=
  ⟨fun _ h => h, fun _ => rfl, fun _ => rfl, fun _ h => h⟩

theorem Later.isShutdown {p q : Pool} (h : Later p q)
    (hp : p.isShutdown = true) : q.isShutdown = true := by
  rw [Pool.isShutdown, Bool.or_eq_true] at hp ⊢
  exact hp.imp (h.flag .graceful) (h.flag .immediate)

theorem Later.trans {p q r : Pool} (hpq : Later p q) (hqr : Later q r) :
    Later p r where
  flag := fun kind hp => hqr.flag kind (hpq.flag kind hp)
  accepted := fun hp =>
    (hqr.accepted (hpq.isShutdown hp)).trans (hpq.accepted hp)
  dequeued := fun hp =>
    (hqr.dequeued (hpq.flag .immediate hp)).trans (hpq.dequeued hp)
  drained := fun hp hqueue =>
    hqr.drained (hpq.isShutdown hp) (hpq.drained hp hqueue)

theorem PoolChange.later {c : Nat} {p q : Pool} (h : PoolChange c p q) :
    Later p q := by
  cases h with
  | same => exact .refl p
  | grab e rest himm hqueue =>
      exact
        { flag := fun _ hflag => hflag
          accepted := fun _ => rfl
          dequeued := fun hp => absurd (himm.symm.trans hp) (by simp)
          drained := fun _ hempty => by simp [hqueue] at hempty }
  | push task hopen _ =>
      exact
        { flag := fun _ hflag => hflag
          accepted := fun hp => absurd (hopen.symm.trans hp) (by simp)
          dequeued := fun _ => rfl
          drained := fun hp => absurd (hopen.symm.trans hp) (by simp) }
  | resolve e =>
      exact ⟨fun _ hflag => hflag, fun _ => rfl, fun _ => rfl, fun _ h => h⟩
  | close kind hopen =>
      refine ⟨fun other hflag => ?_,
        fun hp => absurd (hopen.symm.trans hp) (by simp),
        fun hp => ?_,
        fun hp => absurd (hopen.symm.trans hp) (by simp)⟩
      · cases kind <;> cases other <;> first | rfl | exact hflag
      · simp [Pool.isShutdown, hp] at hopen

/-! ## Threads against the pool -/

namespace Thread

/-- The task of a `pushTask` that has returned its future. -/
def accepted : Thread → Option Task
  | .push task .returned => some task
  | _ => none

/-- The worker holds the entry between its dequeue and its promise. -/
def holds (e : Entry) : Thread → Bool
  | .worker (.holding e') => decide (e' = e)
  | _ => false

def isWorker : Thread → Bool
  | .worker _ => true
  | _ => false

def hasExited : Thread → Bool
  | .worker .exited => true
  | _ => false

/-- What a thread's position says about the pool and the joined workers. -/
def Ok (numThreads : Nat) (p : Pool) (joinable : List Bool) : Thread → Prop
  | .worker .exited => p.isImmediateShutdown = true ∨
      (p.isGracefulShutdown = true ∧ p.taskQueue = [])
  | .worker .faulted => False
  | .shutdown kind .notifyNotFull => p.flag kind = true
  | .shutdown kind .notifyNotEmpty => p.flag kind = true
  | .shutdown kind (.joining i) => p.flag kind = true ∧
      ∀ j < i, j < numThreads → joinable[j]? = some false
  | .shutdown kind (.returned true) => p.flag kind = true ∧
      ∀ j < numThreads, joinable[j]? = some false
  | _ => True

theorem Ok.mono {numThreads : Nat} {p q : Pool} {joinable joinable' : List Bool}
    {t : Thread} (h : t.Ok numThreads p joinable) (hlater : Later p q)
    (hjoined : ∀ j : Nat, joinable[j]? = some false →
      joinable'[j]? = some false) :
    t.Ok numThreads q joinable' := by
  match t with
  | .worker .exited =>
      rcases h with himm | ⟨hgraceful, hqueue⟩
      · exact .inl (hlater.flag .immediate himm)
      · exact .inr ⟨hlater.flag .graceful hgraceful,
          hlater.drained (by simp [Pool.isShutdown, hgraceful]) hqueue⟩
  | .worker .faulted => exact h
  | .worker .lock | .worker .locked | .worker .asleep | .worker .notified
  | .worker (.holding _) => trivial
  | .push _ _ => trivial
  | .shutdown kind .notifyNotFull => exact hlater.flag kind h
  | .shutdown kind .notifyNotEmpty => exact hlater.flag kind h
  | .shutdown kind (.joining i) =>
      exact ⟨hlater.flag kind h.1, fun j hj hn => hjoined j (h.2 j hj hn)⟩
  | .shutdown kind (.returned true) =>
      exact ⟨hlater.flag kind h.1, fun j hn => hjoined j (h.2 j hn)⟩
  | .shutdown _ .lock | .shutdown _ .locked
  | .shutdown _ (.returned false) => trivial

/-- An observation that does not see who is notified. -/
structure Blind {β : Type*} (f : Thread → β) : Prop where
  worker : f (.worker .notified) = f (.worker .asleep)
  push : ∀ task, f (.push task .notified) = f (.push task .asleep)

namespace Blind

variable {β : Type*} {f : Thread → β}

theorem wakeNotEmpty (h : Blind f) (t : Thread) : f t.wakeNotEmpty = f t := by
  unfold Thread.wakeNotEmpty
  split
  · exact h.worker
  · rfl

theorem wakeNotFull (h : Blind f) (t : Thread) : f t.wakeNotFull = f t := by
  unfold Thread.wakeNotFull
  split
  · exact h.push _
  · rfl

/-- A notification leaves alone what is blind to it. -/
theorem notified (h : Blind f) {notification : Notification}
    {ts ts' : List Thread} (hts : Notified notification ts ts') :
    ts'.map f = ts.map f := by
  cases hts with
  | nobody => rfl
  | oneNotEmpty _ _ hone => exact hone.map_of_eq f h.wakeNotEmpty
  | oneNotFull _ _ hone => exact hone.map_of_eq f h.wakeNotFull
  | allNotEmpty => exact map_map_of_eq f h.wakeNotEmpty ts
  | allNotFull => exact map_map_of_eq f h.wakeNotFull ts

end Blind

theorem blind_accepted : Blind accepted := ⟨rfl, fun _ => rfl⟩

theorem blind_holds (e : Entry) : Blind (holds e) := ⟨rfl, fun _ => rfl⟩

theorem blind_isWorker : Blind isWorker := ⟨rfl, fun _ => rfl⟩

theorem blind_holdsMutex : Blind holdsMutex := ⟨rfl, fun _ => rfl⟩

theorem blind_hasExited : Blind hasExited := ⟨rfl, fun _ => rfl⟩

theorem blind_ok (numThreads : Nat) (p : Pool) (joinable : List Bool) :
    Blind (Ok numThreads p joinable) := ⟨rfl, fun _ => rfl⟩

end Thread

/-! ## The invariant -/

/-- The number of places that hold `e`: the queue, the workers, the resolved
promises and the dropped tasks. -/
def State.places (s : State) (e : Entry) : Nat :=
  s.pool.taskQueue.count e + s.threads.countP (Thread.holds e) +
    (s.pool.resolved.map Prod.fst).count e + s.pool.dropped.count e

structure Invariant (numThreads queueCapacity : Nat) (s : State) : Prop where
  numThreads_eq : s.numThreads = numThreads
  pool : PoolInvariant queueCapacity s.pool
  accepted : Records Thread.accepted s.threads s.pool.accepted
  conserved : ∀ e, s.places e = s.pool.accepted.count e
  ok : ∀ t ∈ s.threads, t.Ok numThreads s.pool s.joinable
  joined : ∀ j : Nat, s.joinable[j]? = some false →
    (s.threads.map Thread.hasExited)[j]? = some true
  workers : ∀ j : Nat, (s.threads.map Thread.isWorker)[j]? = some true →
    j < numThreads
  owner : OwnedBy Thread.holdsMutex s.threads s.poolMutex

theorem invariant_initial (numThreads queueCapacity : Nat) :
    Invariant numThreads queueCapacity
      (.initial numThreads queueCapacity) where
  numThreads_eq := rfl
  pool := poolInvariant_initial queueCapacity
  accepted := by
    refine ⟨fun c v => ?_, by simp [State.initial, Pool.initial]⟩
    simp [State.initial, Pool.initial, Thread.accepted,
      List.getElem?_replicate]
  conserved := by
    intro e
    simp [State.places, State.initial, Pool.initial, List.countP_replicate,
      Thread.holds]
  ok := by
    intro t ht
    rw [(List.mem_replicate.mp ht).2]
    trivial
  joined := by simp [State.initial, List.getElem?_replicate]
  workers := by
    intro j hj
    simpa [State.initial] using lt_length_of_getElem? hj
  owner := by
    intro c
    simp [State.initial, Thread.holdsMutex, List.getElem?_replicate]

/-! ## What one move does -/

namespace Moves

variable {s : State} {c : Nat} {old new : Thread} {effect : Effect}

/-- Only a `pushTask` that returns accepts a task. -/
theorem accepted_cases (h : Moves s c old new effect) :
    (effect.pool.accepted = s.pool.accepted ∧
      new.accepted = old.accepted) ∨
    ∃ task, old.accepted = none ∧ new.accepted = some task ∧
      effect.pool.accepted = s.pool.accepted ++ [(c, task)] := by
  cases h with
  | workerResolves e pool hset =>
      unfold Pool.setValue at hset
      split at hset <;> cases hset
      exact .inl ⟨rfl, rfl⟩
  | pushWaits task pc waited hpc _ =>
      cases waited <;> subst hpc <;> exact .inl ⟨rfl, rfl⟩
  | pushThrows task pc waited what hpc _ =>
      cases waited <;> subst hpc <;> exact .inl ⟨rfl, rfl⟩
  | pushes task pc waited hpc _ =>
      cases waited <;> subst hpc <;> exact .inr ⟨task, rfl, rfl, rfl⟩
  | shutdownCloses kind _ => cases kind <;> exact .inl ⟨rfl, rfl⟩
  | _ => exact .inl ⟨rfl, rfl⟩

/-- An entry leaves one place as it enters another. -/
theorem balance (h : Moves s c old new effect)
    (hpromise : ∀ e, old = .worker (.holding e) →
      s.pool.setValue e (process e.2) ≠ none) (e : Entry) :
    effect.pool.taskQueue.count e + (if new.holds e then 1 else 0) +
      (effect.pool.resolved.map Prod.fst).count e +
      effect.pool.dropped.count e + s.pool.accepted.count e =
    s.pool.taskQueue.count e + (if old.holds e then 1 else 0) +
      (s.pool.resolved.map Prod.fst).count e +
      s.pool.dropped.count e + effect.pool.accepted.count e := by
  cases h with
  | workerGrabs e' rest hchoice =>
      obtain ⟨-, hqueue⟩ := Pool.of_workerChoice_grab hchoice
      simp only [Pool.grab, hqueue, List.count_cons, Thread.holds,
        decide_eq_true_eq, beq_iff_eq, Bool.false_eq_true, if_false]
      omega
  | workerResolves e' pool hset =>
      unfold Pool.setValue at hset
      split at hset <;> cases hset
      simp only [Thread.holds, List.map_append, List.map_cons, List.map_nil,
        List.count_append, List.count_cons, List.count_nil,
        decide_eq_true_eq, beq_iff_eq, Bool.false_eq_true, if_false]
      omega
  | workerTerminates e' hset => exact absurd hset (hpromise e' rfl)
  | pushWaits task pc waited hpc _ =>
      cases waited <;> subst hpc <;> rfl
  | pushThrows task pc waited what hpc _ =>
      cases waited <;> subst hpc <;> rfl
  | pushes task pc waited hpc _ =>
      have hold : (Thread.push task pc).holds e = false := rfl
      have hnew : (Thread.push task .returned).holds e = false := rfl
      simp only [Pool.push, List.count_append, hold, hnew]
      omega
  | shutdownCloses kind _ =>
      cases kind with
      | graceful => rfl
      | immediate =>
          have hold : (Thread.shutdown .immediate .locked).holds e = false :=
            rfl
          have hnew :
              (Thread.shutdown .immediate .notifyNotFull).holds e = false :=
            rfl
          simp only [Pool.close, List.count_append, hold, hnew,
            List.count_nil]
          omega
  | _ => rfl

theorem isWorker_eq (h : Moves s c old new effect) :
    new.isWorker = old.isWorker := by
  cases h <;> rfl

/-- A thread that has exited moves no more. -/
theorem not_hasExited (h : Moves s c old new effect) :
    old.hasExited = false := by
  cases h <;> rfl

/-- A worker that is joined stays joined. -/
theorem joinable_of_joined (h : Moves s c old new effect) (j : Nat)
    (hj : s.joinable[j]? = some false) :
    effect.joinable[j]? = some false := by
  cases h with
  | joins kind i _ hi _ =>
      exact getElem?_set_of_ne hi hj (by simp) _
  | _ => exact hj

/-- A worker is joined once it has exited. -/
theorem joined_cases (h : Moves s c old new effect) (j : Nat)
    (hj : effect.joinable[j]? = some false) :
    s.joinable[j]? = some false ∨
      s.threads[j]? = some (.worker .exited) := by
  cases h with
  | joins kind i _ hi hexited =>
      rw [State.local, getElem?_set_eq hi] at hj
      split at hj
      next hij => exact .inr (hij ▸ hexited)
      · exact .inl hj
  | _ => exact .inl hj

/-- A thread that has not faulted arrives where the pool lets it. -/
theorem ok (h : Moves s c old new effect)
    (hold : old.Ok s.numThreads s.pool s.joinable)
    (hpromise : ∀ e, old = .worker (.holding e) →
      s.pool.setValue e (process e.2) ≠ none) :
    new.Ok s.numThreads effect.pool effect.joinable := by
  cases h with
  | workerLeaves hchoice => exact Pool.of_workerChoice_leave hchoice
  | workerFaults hchoice =>
      exact absurd hchoice s.pool.workerChoice_ne_undefined
  | workerTerminates e hset => exact absurd hset (hpromise e rfl)
  | shutdownCloses kind _ => exact s.pool.flag_close kind
  | notifiesNotFull kind => exact hold
  | notifiesNotEmpty kind =>
      exact ⟨hold, fun j hj => absurd hj (Nat.not_lt_zero j)⟩
  | joins kind i hi hjoinable _ =>
      refine ⟨hold.1, fun j hj hn => ?_⟩
      rw [State.local, getElem?_set_eq hjoinable]
      split
      · rfl
      next hij => exact hold.2 j (by omega) hn
  | skipsJoin kind i hi hjoinable =>
      refine ⟨hold.1, fun j hj hn => ?_⟩
      rcases Nat.lt_succ_iff_lt_or_eq.mp hj with hj | rfl
      · exact hold.2 j hj hn
      · exact hjoinable
  | shutdownJoined kind i hi =>
      exact ⟨hold.1, fun j hn => hold.2 j (by omega) hn⟩
  | _ => trivial

end Moves

/-! ## The invariant is preserved -/

namespace Invariant

variable {numThreads queueCapacity : Nat} {s : State}

theorem accepted_nodup (h : Invariant numThreads queueCapacity s) :
    s.pool.accepted.Nodup :=
  h.accepted.nodup.of_map

/-- Every task is in exactly one place from its acceptance on. -/
theorem places_eq (h : Invariant numThreads queueCapacity s) (e : Entry) :
    s.places e = if e ∈ s.pool.accepted then 1 else 0 := by
  rw [h.conserved]
  split
  next hmem => exact List.count_eq_one_of_mem h.accepted_nodup hmem
  next hmem => exact List.count_eq_zero.mpr hmem

/-- The promise a worker holds has no value yet. -/
theorem promise_unset (h : Invariant numThreads queueCapacity s)
    {c : Nat} {t : Thread} (hc : s.threads[c]? = some t) (e : Entry)
    (ht : t = .worker (.holding e)) :
    s.pool.setValue e (process e.2) ≠ none := by
  subst ht
  intro hset
  unfold Pool.setValue at hset
  split at hset
  next hmem =>
    obtain ⟨done, hdone, hcall⟩ := List.mem_map.mp hmem
    have hheld : 0 < s.threads.countP (Thread.holds e) :=
      List.countP_pos_iff.mpr ⟨_, List.mem_of_getElem? hc, by
        simp [Thread.holds]⟩
    have hresolved : 0 < (s.pool.resolved.map Prod.fst).count done.1 :=
      List.count_pos_iff.mpr (List.mem_map_of_mem hdone)
    have hplaces := h.places_eq e
    have hplaces' := h.places_eq done.1
    have haccepted : e ∈ s.pool.accepted := by
      by_contra hmem
      rw [if_neg hmem, State.places] at hplaces
      omega
    have haccepted' : done.1 ∈ s.pool.accepted := by
      by_contra hmem
      rw [if_neg hmem, State.places] at hplaces'
      omega
    have hsame : done.1 = e :=
      List.inj_on_of_nodup_map h.accepted.nodup haccepted' haccepted hcall
    rw [hsame] at hresolved
    rw [if_pos haccepted, State.places] at hplaces
    omega
  · cases hset

/-- A call that begins. -/
theorem concat (h : Invariant numThreads queueCapacity s) {new : Thread}
    (haccepted : new.accepted = none) (hholds : ∀ e, new.holds e = false)
    (hok : new.Ok numThreads s.pool s.joinable)
    (hworker : new.isWorker = false) (hmutex : new.holdsMutex = false) :
    Invariant numThreads queueCapacity
      { s with threads := s.threads ++ [new] } where
  numThreads_eq := h.numThreads_eq
  pool := h.pool
  accepted := h.accepted.concat haccepted
  conserved := by
    intro e
    have hold := h.conserved e
    simp only [State.places, List.countP_append, List.countP_cons,
      List.countP_nil, hholds] at hold ⊢
    simpa using hold
  ok := forall_mem_concat h.ok hok
  joined := by
    intro j hj
    rw [List.map_append, List.map_singleton, getElem?_concat_eq_some]
    exact .inl (h.joined j hj)
  workers := by
    intro j hj
    rw [List.map_append, List.map_singleton, getElem?_concat_eq_some,
      hworker] at hj
    rcases hj with hj | ⟨-, hj⟩
    · exact h.workers j hj
    · cases hj
  owner := h.owner.concat hmutex

/-- Threads that change only in who is notified. -/
theorem rewake (h : Invariant numThreads queueCapacity s)
    {threads : List Thread}
    (hsame : ∀ {β : Type} (f : Thread → β), Thread.Blind f →
      threads.map f = s.threads.map f) :
    Invariant numThreads queueCapacity { s with threads := threads } where
  numThreads_eq := h.numThreads_eq
  pool := h.pool
  accepted := h.accepted.congr (hsame _ Thread.blind_accepted)
  conserved := by
    intro e
    have hheld := countP_congr_map (hsame _ (Thread.blind_holds e))
    have hold := h.conserved e
    rw [State.places] at hold ⊢
    rw [hheld]
    exact hold
  ok := forall_mem_congr_map (hsame _ (Thread.blind_ok _ _ _)) h.ok
  joined := by
    intro j hj
    rw [hsame _ Thread.blind_hasExited]
    exact h.joined j hj
  workers := by
    intro j hj
    rw [hsame _ Thread.blind_isWorker] at hj
    exact h.workers j hj
  owner := h.owner.congr (hsame _ Thread.blind_holdsMutex)

/-- The mutex after a move. -/
theorem owner_acquire (h : Invariant numThreads queueCapacity s) {c : Nat}
    {old new : Thread} {owner : Option Nat} (hc : s.threads[c]? = some old)
    (howner : acquire s.poolMutex c old new = some owner) :
    OwnedBy Thread.holdsMutex (s.threads.set c new) owner := by
  unfold acquire at howner
  split at howner
  next hold hnew =>
    split at howner
    next hfree =>
      obtain rfl := Option.some.inj howner
      have hmutex := h.owner
      rw [hfree] at hmutex
      exact hmutex.acquire hc hnew
    · cases howner
  next hold hnew =>
    obtain rfl := Option.some.inj howner
    exact h.owner.release hc hold hnew
  next hacquire hrelease =>
    obtain rfl := Option.some.inj howner
    refine h.owner.congr (map_set_of_eq _ hc ?_)
    cases hold : old.holdsMutex <;> cases hnew : new.holdsMutex <;> simp_all

/-- A move, before its notification. -/
theorem moved (h : Invariant numThreads queueCapacity s) {c : Nat}
    {old new : Thread} {effect : Effect} {owner : Option Nat}
    (hc : s.threads[c]? = some old) (hmove : Moves s c old new effect)
    (howner : acquire s.poolMutex c old new = some owner) :
    Invariant numThreads queueCapacity
      { s with
        pool := effect.pool
        poolMutex := owner
        joinable := effect.joinable
        threads := s.threads.set c new } where
  numThreads_eq := h.numThreads_eq
  pool := h.pool.change hmove.poolChange
  accepted := by
    rcases hmove.accepted_cases with ⟨hpool, hthread⟩ |
      ⟨task, hnone, hsome, hpool⟩
    · rw [hpool]
      exact h.accepted.set hc new hthread
    · rw [hpool]
      exact h.accepted.set_concat hc hnone hsome
  conserved := by
    intro e
    have hold := h.conserved e
    have hheld := countP_set (Thread.holds e) hc new
    have hbalance := hmove.balance (h.promise_unset hc) e
    simp only [State.places] at hold ⊢
    omega
  ok := by
    have hlater := hmove.poolChange.later
    refine forall_mem_set (fun t ht => (h.ok t ht).mono hlater
      hmove.joinable_of_joined) ?_
    have hold := h.ok old (List.mem_of_getElem? hc)
    rw [← h.numThreads_eq] at hold ⊢
    exact hmove.ok hold (h.promise_unset hc)
  joined := by
    intro j hj
    have hexited : (s.threads.map Thread.hasExited)[j]? = some true := by
      rcases hmove.joined_cases j hj with hj | hj
      · exact h.joined j hj
      · rw [List.getElem?_map, hj]
        rfl
    have hold : (s.threads.map Thread.hasExited)[c]? = some false := by
      rw [List.getElem?_map, hc, Option.map_some, hmove.not_hasExited]
    rw [List.map_set]
    exact getElem?_set_of_ne hold hexited (by simp) _
  workers := by
    intro j hj
    rw [map_set_of_eq _ hc hmove.isWorker_eq] at hj
    exact h.workers j hj
  owner := h.owner_acquire hc howner

/-- **Every step preserves the invariant.** -/
theorem step (h : Invariant numThreads queueCapacity s) {a : Action}
    {t : State} (hstep : Step s a t) :
    Invariant numThreads queueCapacity t := by
  cases hstep with
  | pushTask task => exact h.concat rfl (fun _ => rfl) trivial rfl rfl
  | shutdown kind => exact h.concat rfl (fun _ => rfl) trivial rfl rfl
  | wakeSpuriously c t hc =>
      refine h.rewake fun f hf => map_set_of_eq f hc ?_
      rw [hf.wakeNotFull, hf.wakeNotEmpty]
  | move c old new effect owner threads hc hmove howner hnotified =>
      exact (h.moved hc hmove howner).rewake fun f hf =>
        hf.notified hnotified

end Invariant

/-! ## Whole runs -/

theorem Step.later {s t : State} {a : Action} (h : Step s a t) :
    Later s.pool t.pool := by
  cases h with
  | move c old new effect owner threads _ hmove _ _ =>
      exact hmove.poolChange.later
  | _ => exact .refl _

theorem later_of_reaches {s t : State} (h : Reaches Step s t) :
    Later s.pool t.pool :=
  h.related (fun s => .refl s.pool) (fun hst htu => hst.trans htu)
    (fun hstep => hstep.later)

/-- What holds of the tasks in every reachable state. -/
structure TasksAccounted (queueCapacity : Nat) (s : State) : Prop where
  maxQueueSize_eq : s.pool.maxQueueSize = queueCapacity
  bounded : s.pool.taskQueue.length ≤ s.pool.maxQueueSize
  /-- Tasks leave the queue in the order they were accepted. -/
  fifo : s.pool.accepted =
    s.pool.dequeued ++ s.pool.dropped ++ s.pool.taskQueue
  /-- The accepted tasks are those whose `pushTask` returned a future. -/
  accepted : Records Thread.accepted s.threads s.pool.accepted
  /-- Each is once in the queue, with one worker, resolved, or dropped. -/
  places : ∀ e, s.places e = if e ∈ s.pool.accepted then 1 else 0
  results : ∀ done ∈ s.pool.resolved,
    done.2.id = done.1.2.id ∧ done.2 = process done.1.2
  dropped : s.pool.dropped ≠ [] → s.pool.isImmediateShutdown = true
  /-- A `pushTask` that throws has enqueued nothing. -/
  thrown : ∀ (c : Nat) task what,
    s.threads[c]? = some (.push task (.threw what)) →
    ∀ task', (c, task') ∉ s.pool.accepted
  /-- A `gracefulShutdown` that set its flag returns when all is done. -/
  graceful : ∀ c : Nat,
    s.threads[c]? = some (.shutdown .graceful (.returned true)) →
    s.pool.taskQueue = [] ∧
      ∀ e ∈ s.pool.accepted, e ∈ s.pool.resolved.map Prod.fst
  noFault : Thread.worker .faulted ∉ s.threads

namespace Invariant

variable {numThreads queueCapacity : Nat} {s : State}

/-- Once a shutdown call has joined every worker, none of them runs. -/
theorem workers_exited (h : Invariant numThreads queueCapacity s)
    (hjoined : ∀ j < numThreads, s.joinable[j]? = some false) {c : Nat}
    {t : Thread} (hc : s.threads[c]? = some t) (ht : t.isWorker = true) :
    t = .worker .exited := by
  have hlt : c < numThreads := by
    apply h.workers c
    rw [List.getElem?_map, hc, Option.map_some, ht]
  have hexited := h.joined c (hjoined c hlt)
  rw [List.getElem?_map, hc, Option.map_some, Option.some.injEq] at hexited
  unfold Thread.hasExited at hexited
  split at hexited
  · rfl
  · cases hexited

/-- **A graceful shutdown that has returned leaves no task behind.** -/
theorem graceful_done (h : Invariant numThreads queueCapacity s)
    (hn : 1 ≤ numThreads) {c : Nat}
    (hc : s.threads[c]? = some (.shutdown .graceful (.returned true))) :
    s.pool.taskQueue = [] ∧
      ∀ e ∈ s.pool.accepted, e ∈ s.pool.resolved.map Prod.fst := by
  obtain ⟨hgraceful, hjoined⟩ := h.ok _ (List.mem_of_getElem? hc)
  have himm : s.pool.isImmediateShutdown = false := h.pool.oneFlag hgraceful
  have hqueue : s.pool.taskQueue = [] := by
    -- worker 0 left its loop, and only on an empty queue
    have hexited := h.joined 0 (hjoined 0 hn)
    rw [List.getElem?_map, Option.map_eq_some_iff] at hexited
    obtain ⟨t, ht, hexit⟩ := hexited
    obtain rfl : t = .worker .exited := by
      apply h.workers_exited hjoined ht
      unfold Thread.hasExited at hexit
      split at hexit
      · rfl
      · cases hexit
    rcases h.ok _ (List.mem_of_getElem? ht) with himm' | ⟨-, hempty⟩
    · rw [himm] at himm'
      cases himm'
    · exact hempty
  have hheld : ∀ e, s.threads.countP (Thread.holds e) = 0 := by
    intro e
    apply List.countP_eq_zero.mpr
    intro t ht hholds
    obtain ⟨i, hi⟩ := List.getElem?_of_mem ht
    unfold Thread.holds at hholds
    split at hholds
    · cases h.workers_exited hjoined hi rfl
    · cases hholds
  refine ⟨hqueue, fun e he => ?_⟩
  have hplaces := h.places_eq e
  rw [if_pos he, State.places, hqueue, hheld e, h.pool.dropped himm] at hplaces
  apply List.count_pos_iff.mp
  simp only [List.count_nil] at hplaces
  omega

theorem tasksAccounted (h : Invariant numThreads queueCapacity s)
    (hn : 1 ≤ numThreads) : TasksAccounted queueCapacity s where
  maxQueueSize_eq := h.pool.maxQueueSize_eq
  bounded := h.pool.bounded
  fifo := h.pool.fifo
  accepted := h.accepted
  places := h.places_eq
  results := by
    intro done hdone
    have hvalue := h.pool.results done hdone
    exact ⟨congrArg Result.id hvalue, hvalue⟩
  dropped := by
    intro hdropped
    by_contra himm
    exact hdropped (h.pool.dropped (by simpa using himm))
  thrown := by
    intro c task what hc task' hmem
    rw [h.accepted.mem_iff_result hc] at hmem
    cases hmem
  graceful := fun c hc => h.graceful_done hn hc
  noFault := fun hmem => h.ok _ hmem

end Invariant

/-- **Every task is accounted for.**  For every pool of at least one worker,
every capacity and every interleaving of `pushTask` callers, workers and
shutdown calls: the queue is bounded and in order of acceptance, each accepted
task is in exactly one place, a throwing `pushTask` has enqueued nothing, and
a `gracefulShutdown` that set its flag has returned with every accepted task
resolved.  From a state with a flag set no task is accepted, and from one with
`isImmediateShutdown` set none is dequeued. -/
theorem tasks_accounted_for (numThreads queueCapacity : Nat)
    (hn : 1 ≤ numThreads) {s : State}
    (hs : Reaches Step (.initial numThreads queueCapacity) s) :
    TasksAccounted queueCapacity s ∧
      ∀ t, Reaches Step s t →
        (s.pool.isShutdown = true → t.pool.accepted = s.pool.accepted) ∧
        (s.pool.isImmediateShutdown = true →
          t.pool.dequeued = s.pool.dequeued) := by
  have hinv := hs.invariant (fun _ _ _ h hstep => h.step hstep)
    (invariant_initial numThreads queueCapacity)
  refine ⟨hinv.tasksAccounted hn, fun t ht => ?_⟩
  have hlater := later_of_reaches ht
  exact ⟨hlater.accepted, hlater.dequeued⟩

/-- One worker, one task, one graceful shutdown that has returned. -/
theorem tasks_accounted_for_one :
    ∃ s, Reaches Step (.initial 1 1) s ∧
      s.threads = [.worker .exited, .push ⟨7, "a"⟩ .returned,
        .shutdown .graceful (.returned true)] ∧
      s.pool.resolved = [((1, ⟨7, "a"⟩), ⟨7, "Processed: a"⟩)] ∧
      TasksAccounted 1 s := by
  have hbegun : Step (.initial 1 1) (.pushTask ⟨7, "a"⟩) _ := .pushTask _ _
  have hpushed := ((Reaches.single hbegun).tail
    (.move _ 1 _ _ _ _ _ rfl (.pushLocks _) rfl (.nobody _))).tail
    (.move _ 1 _ _ _ _ _ rfl (.pushes _ _ false rfl rfl) rfl
      (.oneNotEmpty _ _ (.nobody (by decide))))
  have hgrabbed := (hpushed.tail
    (.move _ 0 _ _ _ _ _ rfl .workerLocks rfl (.nobody _))).tail
    (.move _ 0 _ _ _ _ _ rfl (.workerGrabs _ _ rfl) rfl
      (.oneNotFull _ _ (.nobody (by decide))))
  have hresolved := hgrabbed.tail
    (.move _ 0 _ _ _ _ _ rfl (.workerResolves _ _ rfl) rfl (.nobody _))
  have hclosed := ((hresolved.tail (.shutdown _ .graceful)).tail
    (.move _ 2 _ _ _ _ _ rfl (.shutdownLocks _) rfl (.nobody _))).tail
    (.move _ 2 _ _ _ _ _ rfl (.shutdownCloses _ rfl) rfl (.nobody _))
  have hnotified := (hclosed.tail
    (.move _ 2 _ _ _ _ _ rfl (.notifiesNotFull _) rfl (.allNotFull _))).tail
    (.move _ 2 _ _ _ _ _ rfl (.notifiesNotEmpty _) rfl (.allNotEmpty _))
  have hexited := (hnotified.tail
    (.move _ 0 _ _ _ _ _ rfl .workerLocks rfl (.nobody _))).tail
    (.move _ 0 _ _ _ _ _ rfl (.workerLeaves rfl) rfl (.nobody _))
  have hreturned := (hexited.tail
    (.move _ 2 _ _ _ _ _ rfl (.joins _ 0 (by decide) rfl rfl) rfl
      (.nobody _))).tail
    (.move _ 2 _ _ _ _ _ rfl (.shutdownJoined _ 1 (by decide)) rfl
      (.nobody _))
  exact ⟨_, hreturned, rfl, rfl,
    (tasks_accounted_for 1 1 (by decide) hreturned).1⟩

end GoPrep.Ports.ThreadPool
