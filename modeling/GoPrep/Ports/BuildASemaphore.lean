import GoPrep.Verified.ThreadTable
import GoPrep.Verified.Transition

/-!
# The counting semaphore

A port of `src/go-concurrency-practice/build-a-semaphore/main.go`: a channel
of empty structs with capacity `N`, `Acquire` a send and `Release` a receive.

In `ClientStep` any goroutines call `Acquire` and `Release` in any order of
their own.  A channel of capacity zero has no buffer: there a send and a
receive happen in one step of two goroutines.

## Main results

* `semaphore_counts_permits` — whatever the goroutines do, the buffered
  tokens are the permits acquired and not released, and if no goroutine
  releases more than it acquired at most `N` goroutines hold one.
-/

namespace GoPrep.Ports.BuildASemaphore

open GoPrep.Verified.ThreadTable
open GoPrep.Verified.Transition

/-- The panic of `make` on a negative buffer size. -/
inductive NewPanic
  | makeChanSize
  deriving DecidableEq, Repr

/-- The channel `ch`: its capacity and the empty structs in its buffer. -/
structure Semaphore where
  capacity : Nat
  tokens : Nat
  fits : tokens ≤ capacity
  deriving DecidableEq, Repr

/-- `NewSemaphore`.  Empty structs take no space, so every size that is not
negative can be made. -/
def newSemaphore (N : Int) : Except NewPanic Semaphore :=
  if N < 0 then .error .makeChanSize
  else .ok { capacity := N.toNat, tokens := 0, fits := Nat.zero_le _ }

namespace Semaphore

/-- `Acquire`, when its send need not wait. -/
def acquire (sem : Semaphore) : Option Semaphore :=
  if h : sem.tokens < sem.capacity then
    some { sem with tokens := sem.tokens + 1, fits := h }
  else none

/-- `Release`, when its receive need not wait. -/
def release (sem : Semaphore) : Option Semaphore :=
  if 0 < sem.tokens then
    some
      { sem with
        tokens := sem.tokens - 1
        fits := Nat.le_trans (Nat.sub_le _ _) sem.fits }
  else none

theorem acquire_eq_some {sem sem' : Semaphore} (h : sem.acquire = some sem') :
    sem'.tokens = sem.tokens + 1 ∧ sem'.capacity = sem.capacity := by
  unfold acquire at h
  split at h
  · cases h
    exact ⟨rfl, rfl⟩
  · cases h

theorem release_eq_some {sem sem' : Semaphore} (h : sem.release = some sem') :
    sem.tokens = sem'.tokens + 1 ∧ sem'.capacity = sem.capacity := by
  unfold release at h
  split at h
  next hpos =>
    cases h
    exact ⟨(Nat.sub_add_cancel hpos).symm, rfl⟩
  next => cases h

theorem exists_acquire {sem : Semaphore} (h : sem.tokens < sem.capacity) :
    ∃ sem', sem.acquire = some sem' :=
  ⟨_, dif_pos h⟩

theorem exists_release {sem : Semaphore} (h : 0 < sem.tokens) :
    ∃ sem', sem.release = some sem' :=
  ⟨_, if_pos h⟩

end Semaphore

/-! ## Any clients -/

inductive Op
  | acquire
  | release
  deriving DecidableEq, Repr

/-- A goroutine: the calls it has made that returned, and those to come, the
first of which it is in. -/
structure Client where
  made : List Op
  left : List Op
  deriving DecidableEq, Repr

namespace Client

def acquired (client : Client) : Nat := client.made.count .acquire

def released (client : Client) : Nat := client.made.count .release

/-- The goroutine has a permit it has not given back. -/
def holds (client : Client) : Bool := client.released < client.acquired

/-- The calls of the goroutine, made or not. -/
def program (client : Client) : List Op := client.made ++ client.left

end Client

/-- The call the goroutine is in returns. -/
def Client.finish (client : Client) (op : Op) (left : List Op) : Client :=
  { made := client.made ++ [op], left := left }

structure Clients where
  sem : Semaphore
  clients : List Client
  deriving DecidableEq, Repr

/-- Goroutines about to make the calls of `programs`. -/
def Clients.initial (sem : Semaphore) (programs : List (List Op)) : Clients :=
  { sem := sem, clients := programs.map fun program => ⟨[], program⟩ }

inductive ClientAction
  | call (i : Nat)
  | rendezvous (i j : Nat)
  deriving DecidableEq, Repr

inductive ClientStep : Clients → ClientAction → Clients → Prop
  | acquire (s : Clients) (i : Nat) (client : Client) (left : List Op)
      (sem' : Semaphore) : s.clients[i]? = some client →
      client.left = .acquire :: left → s.sem.acquire = some sem' →
      ClientStep s (.call i)
        { s with
          sem := sem'
          clients := s.clients.set i (client.finish .acquire left) }
  | release (s : Clients) (i : Nat) (client : Client) (left : List Op)
      (sem' : Semaphore) : s.clients[i]? = some client →
      client.left = .release :: left → s.sem.release = some sem' →
      ClientStep s (.call i)
        { s with
          sem := sem'
          clients := s.clients.set i (client.finish .release left) }
  /-- A send meets a receive on a channel without a buffer. -/
  | rendezvous (s : Clients) (i j : Nat) (sender receiver : Client)
      (left left' : List Op) : s.sem.capacity = 0 → i ≠ j →
      s.clients[i]? = some sender → sender.left = .acquire :: left →
      s.clients[j]? = some receiver → receiver.left = .release :: left' →
      ClientStep s (.rendezvous i j)
        { s with
          clients := (s.clients.set i (sender.finish .acquire left)).set j
            (receiver.finish .release left') }

/-- No goroutine is about to release more than it acquired. -/
def Disciplined (program : List Op) : Prop :=
  ∀ made, made <+: program → made.count .release ≤ made.count .acquire

namespace Client

variable {client : Client}

theorem program_finish {op : Op} {left : List Op}
    (h : client.left = op :: left) :
    (client.finish op left).program = client.program := by
  simp [program, finish, h]

@[simp] theorem acquired_finish_acquire (left : List Op) :
    (client.finish .acquire left).acquired = client.acquired + 1 := by
  simp [acquired, finish]

@[simp] theorem acquired_finish_release (left : List Op) :
    (client.finish .release left).acquired = client.acquired := by
  simp [acquired, finish]

@[simp] theorem released_finish_acquire (left : List Op) :
    (client.finish .acquire left).released = client.released := by
  simp [released, finish]

@[simp] theorem released_finish_release (left : List Op) :
    (client.finish .release left).released = client.released + 1 := by
  simp [released, finish]

theorem released_le (h : Disciplined client.program) :
    client.released ≤ client.acquired :=
  h client.made (List.prefix_append _ _)

/-- A disciplined goroutine at `Release` has a permit. -/
theorem released_lt (h : Disciplined client.program) {left : List Op}
    (hleft : client.left = .release :: left) :
    client.released < client.acquired := by
  have hmade := h (client.made ++ [.release]) ⟨left, by
    simp [program, hleft]⟩
  rw [List.count_append, List.count_append] at hmade
  have hsame : client.made.count .release + 1 ≤
      client.made.count .acquire := by simpa using hmade
  exact hsame

end Client

/-- The sum over the goroutines. -/
def Clients.total (s : Clients) (f : Client → Nat) : Nat :=
  (s.clients.map f).sum

/-- The tokens are the permits acquired and not released. -/
structure ClientInvariant (N : Nat) (programs : List (List Op))
    (s : Clients) : Prop where
  capacity_eq : s.sem.capacity = N
  programs_eq : s.clients.map Client.program = programs
  counted : s.total Client.acquired =
    s.total Client.released + s.sem.tokens

namespace ClientInvariant

variable {N : Nat} {programs : List (List Op)} {s t : Clients}

theorem initial {sem : Semaphore} (htokens : sem.tokens = 0)
    (programs : List (List Op)) :
    ClientInvariant sem.capacity programs (Clients.initial sem programs) := by
  constructor
  · rfl
  · rw [Clients.initial, List.map_map]
    exact List.map_id programs
  · show ((programs.map _).map Client.acquired).sum =
      ((programs.map _).map Client.released).sum + sem.tokens
    rw [htokens, List.map_map, List.map_map]
    rfl

theorem step {a : ClientAction} (h : ClientInvariant N programs s)
    (hstep : ClientStep s a t) : ClientInvariant N programs t := by
  have hcounted := h.counted
  cases hstep with
  | acquire i client left sem' hclient hleft hacquire =>
      obtain ⟨htokens, hcapacity⟩ := Semaphore.acquire_eq_some hacquire
      constructor
      · exact hcapacity.trans h.capacity_eq
      · rw [map_set_of_eq _ hclient (Client.program_finish hleft)]
        exact h.programs_eq
      · have hacq := sum_map_set Client.acquired hclient
          (client.finish .acquire left)
        have hrel := sum_map_set Client.released hclient
          (client.finish .acquire left)
        simp only [Clients.total, Client.acquired_finish_acquire,
          Client.released_finish_acquire] at hcounted hacq hrel ⊢
        omega
  | release i client left sem' hclient hleft hrelease =>
      obtain ⟨htokens, hcapacity⟩ := Semaphore.release_eq_some hrelease
      constructor
      · exact hcapacity.trans h.capacity_eq
      · rw [map_set_of_eq _ hclient (Client.program_finish hleft)]
        exact h.programs_eq
      · have hacq := sum_map_set Client.acquired hclient
          (client.finish .release left)
        have hrel := sum_map_set Client.released hclient
          (client.finish .release left)
        simp only [Clients.total, Client.acquired_finish_release,
          Client.released_finish_release] at hcounted hacq hrel ⊢
        omega
  | rendezvous i j sender receiver left left' _ hne hsender hleft hreceiver
      hleft' =>
      have hreceiver' : (s.clients.set i (sender.finish .acquire left))[j]? =
          some receiver := by
        rw [getElem?_set_eq hsender, if_neg hne]
        exact hreceiver
      constructor
      · exact h.capacity_eq
      · rw [map_set_of_eq _ hreceiver' (Client.program_finish hleft'),
          map_set_of_eq _ hsender (Client.program_finish hleft)]
        exact h.programs_eq
      · have hacq := sum_map_set Client.acquired hsender
          (sender.finish .acquire left)
        have hrel := sum_map_set Client.released hsender
          (sender.finish .acquire left)
        have hacq' := sum_map_set Client.acquired hreceiver'
          (receiver.finish .release left')
        have hrel' := sum_map_set Client.released hreceiver'
          (receiver.finish .release left')
        simp only [Clients.total, Client.acquired_finish_acquire,
          Client.released_finish_acquire, Client.acquired_finish_release,
          Client.released_finish_release] at hcounted hacq hrel hacq' hrel' ⊢
        omega

/-- Goroutines that release no more than they acquired. -/
theorem released_le (h : ClientInvariant N programs s)
    (hdisciplined : ∀ program ∈ programs, Disciplined program) :
    ∀ client ∈ s.clients, Disciplined client.program := by
  intro client hclient
  apply hdisciplined
  rw [← h.programs_eq]
  exact List.mem_map_of_mem hclient

end ClientInvariant

theorem countP_holds_le {clients : List Client}
    (h : ∀ client ∈ clients, client.released ≤ client.acquired) :
    clients.countP Client.holds + (clients.map Client.released).sum ≤
      (clients.map Client.acquired).sum := by
  induction clients with
  | nil => simp
  | cons client clients ih =>
      have hclient := h client (by simp)
      have hrest := ih fun other hother => h other (by simp [hother])
      rw [List.countP_cons, List.map_cons, List.map_cons, List.sum_cons,
        List.sum_cons]
      by_cases hholds : client.holds = true
      · have hlt : client.released < client.acquired :=
          of_decide_eq_true hholds
        rw [if_pos hholds]
        omega
      · rw [if_neg hholds]
        omega

/-- What the goroutines can rely on. -/
structure CountsPermits (N : Nat) (programs : List (List Op)) (s : Clients) :
    Prop where
  tokens_le : s.sem.tokens ≤ N
  counted : s.total Client.acquired =
    s.total Client.released + s.sem.tokens
  /-- No more than `N` goroutines hold a permit. -/
  holders_le : (∀ program ∈ programs, Disciplined program) →
    s.clients.countP Client.holds ≤ s.sem.tokens
  /-- A goroutine at `Release` never waits. -/
  release_ready : (∀ program ∈ programs, Disciplined program) →
    ∀ client ∈ s.clients, ∀ left, client.left = .release :: left →
      ∃ sem', s.sem.release = some sem'
  /-- A goroutine at `Acquire` waits only while `N` permits are out. -/
  acquire_ready : s.sem.tokens < N → ∃ sem', s.sem.acquire = some sem'

/-- **The channel counts the permits.**  For every capacity, every number of
goroutines and whatever calls they make in whatever order. -/
theorem semaphore_counts_permits {N : Int} {sem : Semaphore}
    {programs : List (List Op)} {s : Clients}
    (hnew : newSemaphore N = .ok sem)
    (h : Reaches ClientStep (Clients.initial sem programs) s) :
    CountsPermits N.toNat programs s := by
  have hsem : sem.capacity = N.toNat ∧ sem.tokens = 0 := by
    unfold newSemaphore at hnew
    split at hnew
    · cases hnew
    · cases hnew
      exact ⟨rfl, rfl⟩
  have hinv : ClientInvariant N.toNat programs s :=
    h.invariant (fun _ _ _ hs hst => hs.step hst)
      (hsem.1 ▸ ClientInvariant.initial hsem.2 programs)
  have hcounted := hinv.counted
  refine ⟨hinv.capacity_eq ▸ s.sem.fits, hcounted, ?_, ?_, ?_⟩
  · intro hdisciplined
    have hholds := countP_holds_le fun client hclient =>
      Client.released_le (hinv.released_le hdisciplined client hclient)
    simp only [Clients.total] at hcounted
    omega
  · intro hdisciplined client hclient left hleft
    have hall := hinv.released_le hdisciplined
    have hholds : client.holds = true :=
      decide_eq_true (Client.released_lt (hall client hclient) hleft)
    have hpos : 0 < s.clients.countP Client.holds :=
      List.countP_pos_iff.mpr ⟨client, hclient, hholds⟩
    have hle := countP_holds_le fun client hclient =>
      Client.released_le (hall client hclient)
    simp only [Clients.total] at hcounted
    exact Semaphore.exists_release (by omega)
  · intro hlt
    exact Semaphore.exists_acquire (hinv.capacity_eq ▸ hlt)

/-- Two goroutines and one permit: the second waits for the first. -/
theorem semaphore_counts_permits_two :
    ∃ sem s, newSemaphore 1 = .ok sem ∧
      Reaches ClientStep
        (Clients.initial sem [[.acquire, .release], [.acquire, .release]]) s ∧
      s.sem.acquire = none ∧
      CountsPermits 1 [[.acquire, .release], [.acquire, .release]] s := by
  have hrun : Reaches ClientStep
      (Clients.initial ⟨1, 0, Nat.zero_le _⟩
        [[.acquire, .release], [.acquire, .release]]) _ :=
    .single (.acquire _ 0 _ _ _ rfl rfl rfl)
  exact ⟨_, _, rfl, hrun, rfl, semaphore_counts_permits (N := 1) rfl hrun⟩

end GoPrep.Ports.BuildASemaphore
