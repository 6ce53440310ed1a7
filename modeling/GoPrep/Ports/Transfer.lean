import GoPrep.Verified.ThreadTable
import GoPrep.Verified.Transition
import Mathlib.Order.Lattice

/-!
# Transfers between locked accounts

The `transfer` of `cpp-concurrency-prep.md`, which takes the mutexes of two
accounts and moves an amount from one to the other.  The notes give it twice:
once locking in the order of its arguments, and once in the order of the
accounts' addresses.  Only the order differs, so it is a parameter here.

Any number of threads call `transfer`.  Each `-=` and `+=` is a load followed
by a store.  A second lock of a mutex by the same thread blocks for ever, and
the balances are taken not to overflow.

## Main results

* `Invariant.step` — the mutexes keep what was loaded current until it is
  stored, so that no update is lost.
-/

namespace GoPrep.Ports.Transfer

open GoPrep.Verified.ThreadTable
open GoPrep.Verified.Transition

variable {Account : Type*}

/-! ## The function -/

/-- The arguments of `transfer(from, to, amt)`.  An account is its address. -/
structure Call (Account : Type*) where
  fromAccount : Account
  toAccount : Account
  amt : Int
  deriving DecidableEq, Repr

/-- The accounts whose mutexes `g1` and `g2` lock. -/
abbrev LockOrder (Account : Type*) := Call Account → Account × Account

/-- The broken version: source first, destination second. -/
def argumentOrder : LockOrder Account :=
  fun call => (call.fromAccount, call.toAccount)

/-- The second fix: `std::swap` unless `first` has the lower address. -/
def addressOrder [LinearOrder Account] : LockOrder Account := fun call =>
  let first := call.fromAccount
  let second := call.toAccount
  if second < first then (second, first) else (first, second)

/-- Both orders lock the two accounts of the call. -/
def LockOrder.Covers (order : LockOrder Account) : Prop :=
  ∀ call, order call = (call.fromAccount, call.toAccount) ∨
    order call = (call.toAccount, call.fromAccount)

theorem covers_argumentOrder :
    (argumentOrder : LockOrder Account).Covers :=
  fun _ => .inl rfl

theorem covers_addressOrder [LinearOrder Account] :
    (addressOrder : LockOrder Account).Covers := by
  intro call
  by_cases hlt : call.toAccount < call.fromAccount
  · exact .inr (if_pos hlt)
  · exact .inl (if_neg hlt)

variable [LinearOrder Account]

/-- Where a thread stands: before which statement. -/
inductive Pc
  | lockFirst
  | lockSecond
  | loadFrom
  | storeFrom (read : Int)
  | loadTo
  | storeTo (read : Int)
  | unlockSecond
  | unlockFirst
  | returned
  deriving DecidableEq, Repr

structure Thread (Account : Type*) where
  call : Call Account
  pc : Pc
  deriving DecidableEq, Repr

/-- The fields `m` and `balance` of every account, and the threads. -/
structure State (Account : Type*) where
  m : Account → Option Nat
  balance : Account → Int
  threads : List (Thread Account)

def State.start (calls : List (Call Account)) (balances : Account → Int) :
    State Account where
  m _ := none
  balance := balances
  threads := calls.map fun call => ⟨call, .lockFirst⟩

namespace State

def goto (s : State Account) (c : Nat) (t : Thread Account) (pc : Pc) :
    State Account :=
  { s with threads := s.threads.set c { t with pc := pc } }

def lock (s : State Account) (a : Account) (c : Nat) : State Account :=
  { s with m := Function.update s.m a (some c) }

def unlock (s : State Account) (a : Account) : State Account :=
  { s with m := Function.update s.m a none }

def store (s : State Account) (a : Account) (value : Int) : State Account :=
  { s with balance := Function.update s.balance a value }

end State

/-- Thread `c` takes its next step. -/
inductive Step (order : LockOrder Account) :
    State Account → Nat → State Account → Prop
  | lockFirst (s : State Account) (c : Nat) (t : Thread Account) :
      s.threads[c]? = some t → t.pc = .lockFirst →
      s.m (order t.call).1 = none →
      Step order s c ((s.lock (order t.call).1 c).goto c t .lockSecond)
  | lockSecond (s : State Account) (c : Nat) (t : Thread Account) :
      s.threads[c]? = some t → t.pc = .lockSecond →
      s.m (order t.call).2 = none →
      Step order s c ((s.lock (order t.call).2 c).goto c t .loadFrom)
  | loadFrom (s : State Account) (c : Nat) (t : Thread Account) :
      s.threads[c]? = some t → t.pc = .loadFrom →
      Step order s c (s.goto c t (.storeFrom (s.balance t.call.fromAccount)))
  | storeFrom (s : State Account) (c : Nat) (t : Thread Account)
      (read : Int) :
      s.threads[c]? = some t → t.pc = .storeFrom read →
      Step order s c
        ((s.store t.call.fromAccount (read - t.call.amt)).goto c t .loadTo)
  | loadTo (s : State Account) (c : Nat) (t : Thread Account) :
      s.threads[c]? = some t → t.pc = .loadTo →
      Step order s c (s.goto c t (.storeTo (s.balance t.call.toAccount)))
  | storeTo (s : State Account) (c : Nat) (t : Thread Account)
      (read : Int) :
      s.threads[c]? = some t → t.pc = .storeTo read →
      Step order s c
        ((s.store t.call.toAccount (read + t.call.amt)).goto c t
          .unlockSecond)
  | unlockSecond (s : State Account) (c : Nat) (t : Thread Account) :
      s.threads[c]? = some t → t.pc = .unlockSecond →
      Step order s c ((s.unlock (order t.call).2).goto c t .unlockFirst)
  | unlockFirst (s : State Account) (c : Nat) (t : Thread Account) :
      s.threads[c]? = some t → t.pc = .unlockFirst →
      Step order s c ((s.unlock (order t.call).1).goto c t .returned)

/-! ## What a thread holds and has done -/

def Pc.hasFirst : Pc → Bool
  | .lockFirst => false
  | .returned => false
  | _ => true

def Pc.hasSecond : Pc → Bool
  | .lockFirst => false
  | .lockSecond => false
  | .unlockFirst => false
  | .returned => false
  | _ => true

/-- The amount was taken from the source. -/
def Pc.debited : Pc → Bool
  | .loadTo => true
  | .storeTo _ => true
  | .unlockSecond => true
  | .unlockFirst => true
  | .returned => true
  | _ => false

/-- The amount was added to the destination. -/
def Pc.credited : Pc → Bool
  | .unlockSecond => true
  | .unlockFirst => true
  | .returned => true
  | _ => false

namespace Thread

def holds (order : LockOrder Account) (a : Account) (t : Thread Account) :
    Bool :=
  t.pc.hasFirst && decide ((order t.call).1 = a) ||
    t.pc.hasSecond && decide ((order t.call).2 = a)

/-- What the thread's stores have added to the balance of `a`. -/
def posted (a : Account) (t : Thread Account) : Int :=
  (if t.pc.debited ∧ t.call.fromAccount = a then -t.call.amt else 0) +
    if t.pc.credited ∧ t.call.toAccount = a then t.call.amt else 0

/-- The balance that was loaded, and is about to be replaced, is still the
balance of its account. -/
def ReadIsCurrent (balance : Account → Int) (t : Thread Account) : Prop :=
  match t.pc with
  | .storeFrom read => balance t.call.fromAccount = read
  | .storeTo read => balance t.call.toAccount = read
  | _ => True

end Thread

variable {order : LockOrder Account} {calls : List (Call Account)}
  {balances : Account → Int} {s : State Account}

/-- A thread that holds both mutexes holds those of its two accounts. -/
theorem LockOrder.Covers.holds (hcovers : order.Covers) {t : Thread Account}
    (hfirst : t.pc.hasFirst = true) (hsecond : t.pc.hasSecond = true) :
    t.holds order t.call.fromAccount = true ∧
      t.holds order t.call.toAccount = true := by
  rcases hcovers t.call with h | h <;>
    simp [Thread.holds, h, hfirst, hsecond]

/-! ## The invariant -/

/-- The sum of these amounts. -/
def total (amounts : List Int) : Int := amounts.foldr (· + ·) 0

theorem total_eq_zero {amounts : List Int} (h : ∀ x ∈ amounts, x = 0) :
    total amounts = 0 := by
  induction amounts with
  | nil => rfl
  | cons x amounts ih =>
      have hx := h x List.mem_cons_self
      have hrest := ih fun y hy => h y (List.mem_cons_of_mem x hy)
      simp only [total, List.foldr_cons] at hrest ⊢
      omega

/-- Rewriting an entry moves a sum by what the entry contributes. -/
theorem total_map_set {τ : Type*} (f : τ → Int) {ts : List τ} {c : Nat}
    {old : τ} (h : ts[c]? = some old) (new : τ) :
    total ((ts.set c new).map f) + f old = total (ts.map f) + f new := by
  induction ts generalizing c with
  | nil => cases h
  | cons t ts ih =>
      cases c with
      | zero =>
          obtain rfl := Option.some.inj h
          simp only [total, List.set_cons_zero, List.map_cons,
            List.foldr_cons]
          omega
      | succ c =>
          have hrest := ih (c := c) h
          simp only [total, List.set_cons_succ, List.map_cons,
            List.foldr_cons] at hrest ⊢
          omega

structure Invariant (order : LockOrder Account) (calls : List (Call Account))
    (balances : Account → Int) (s : State Account) : Prop where
  owned : ∀ a, OwnedBy (Thread.holds order a) s.threads (s.m a)
  distinct : ∀ t ∈ s.threads, t.pc.hasSecond = true →
    (order t.call).1 ≠ (order t.call).2
  current : ∀ (c : Nat) (t : Thread Account), s.threads[c]? = some t →
    t.ReadIsCurrent s.balance
  ledger : ∀ a, s.balance a =
    balances a + total (s.threads.map (Thread.posted a))
  calls_eq : s.threads.map Thread.call = calls

namespace Invariant

theorem start (order : LockOrder Account) (calls : List (Call Account))
    (balances : Account → Int) :
    Invariant order calls balances (.start calls balances) := by
  have hpc : ∀ t ∈ (State.start calls balances).threads,
      t.pc = .lockFirst := by
    intro t ht
    obtain ⟨call, -, rfl⟩ := List.mem_map.mp ht
    rfl
  refine ⟨fun a c => ?_, fun t ht h => ?_, fun c t ht => ?_, fun a => ?_, ?_⟩
  · constructor
    · intro hc
      rw [List.getElem?_map] at hc
      obtain ⟨t, ht, hholds⟩ := Option.map_eq_some_iff.mp hc
      simp [Thread.holds, hpc t (List.mem_of_getElem? ht), Pc.hasFirst,
        Pc.hasSecond] at hholds
    · intro hnone
      cases hnone
  · rw [hpc t ht] at h
    cases h
  · rw [Thread.ReadIsCurrent, hpc t (List.mem_of_getElem? ht)]
    trivial
  · have hzero : ∀ x ∈ (State.start calls balances).threads.map
        (Thread.posted a), x = 0 := by
      intro x hx
      obtain ⟨t, ht, rfl⟩ := List.mem_map.mp hx
      simp [Thread.posted, hpc t ht, Pc.debited, Pc.credited]
    rw [total_eq_zero hzero, Int.add_zero]
    rfl
  · simp [State.start, Function.comp_def]

/-- Two threads never hold the mutex of one account. -/
theorem excludes (h : Invariant order calls balances s) {a : Account}
    {c d : Nat} {t u : Thread Account} (ht : s.threads[c]? = some t)
    (hu : s.threads[d]? = some u) (hholds : t.holds order a = true)
    (hholds' : u.holds order a = true) : c = d := by
  by_contra hne
  have hnot := (h.owned a).excludes ht hu (Ne.symm hne) hholds
  rw [hholds'] at hnot
  cases hnot

/-- A step that rewrites one thread, some mutexes and some balances. -/
theorem goto (h : Invariant order calls balances s) {c : Nat}
    {t : Thread Account} (ht : s.threads[c]? = some t) {pc : Pc}
    {m : Account → Option Nat} {balance : Account → Int}
    (hm : ∀ a, OwnedBy.Passes c (s.m a) (t.holds order a) (m a)
      (Thread.holds order a { t with pc := pc }))
    (hdistinct : pc.hasSecond = true → (order t.call).1 ≠ (order t.call).2)
    (hothers : ∀ (d : Nat) (u : Thread Account), d ≠ c →
      s.threads[d]? = some u → u.ReadIsCurrent s.balance →
      u.ReadIsCurrent balance)
    (hcurrent : Thread.ReadIsCurrent balance { t with pc := pc })
    (hposted : ∀ a, balance a + t.posted a =
      s.balance a + Thread.posted a { t with pc := pc }) :
    Invariant order calls balances
      ⟨m, balance, s.threads.set c { t with pc := pc }⟩ where
  owned a := (h.owned a).passes ht (hm a)
  distinct := forall_mem_set h.distinct hdistinct
  current d u hu := by
    rw [getElem?_set_eq ht] at hu
    by_cases hcd : c = d
    · rw [if_pos hcd] at hu
      obtain rfl := Option.some.inj hu
      exact hcurrent
    · rw [if_neg hcd] at hu
      exact hothers d u (Ne.symm hcd) hu (h.current d u hu)
  ledger a := by
    have hset := total_map_set (Thread.posted a) ht { t with pc := pc }
    have hold := h.ledger a
    have hnew := hposted a
    simp only at hset ⊢
    omega
  calls_eq := by
    rw [← h.calls_eq]
    exact map_set_of_eq Thread.call ht rfl

/-- A thread that holds both mutexes stores a new balance: nobody else has
read the old one. -/
theorem unread (h : Invariant order calls balances s)
    (hcovers : order.Covers) {c : Nat} {t : Thread Account}
    (ht : s.threads[c]? = some t) {a : Account}
    (hholds : t.holds order a = true) (value : Int) (d : Nat)
    (u : Thread Account) (hne : d ≠ c) (hu : s.threads[d]? = some u)
    (hcurrent : u.ReadIsCurrent s.balance) :
    u.ReadIsCurrent (Function.update s.balance a value) := by
  have hother : ∀ b, u.holds order b = true → b ≠ a := by
    rintro b hb rfl
    exact hne (h.excludes hu ht hb hholds)
  rw [Thread.ReadIsCurrent] at hcurrent ⊢
  cases hpc : u.pc with
  | storeFrom read =>
      rw [hpc] at hcurrent
      have hfrom := (hcovers.holds (t := u) (by rw [hpc]; rfl)
        (by rw [hpc]; rfl)).1
      exact (Function.update_of_ne (hother _ hfrom) _ _).trans hcurrent
  | storeTo read =>
      rw [hpc] at hcurrent
      have hto := (hcovers.holds (t := u) (by rw [hpc]; rfl)
        (by rw [hpc]; rfl)).2
      exact (Function.update_of_ne (hother _ hto) _ _).trans hcurrent
  | _ => trivial

/-- A thread that waits at `g2` holds the first mutex, so a second one that is
free is another. -/
theorem ne_of_free (h : Invariant order calls balances s) {c : Nat}
    {t : Thread Account} (ht : s.threads[c]? = some t)
    (hpc : t.pc = .lockSecond) (hfree : s.m (order t.call).2 = none) :
    (order t.call).1 ≠ (order t.call).2 := by
  intro heq
  have hholds : t.holds order (order t.call).2 = true := by
    simp [Thread.holds, hpc, Pc.hasFirst, heq]
  have howner := (h.owned _).owner_of_holds ht hholds
  cases hfree.symm.trans howner

/-- A step between the two locks and the two unlocks. -/
theorem within (h : Invariant order calls balances s) {c : Nat}
    {t : Thread Account} (ht : s.threads[c]? = some t) {pc : Pc}
    {balance : Account → Int}
    (hfirst : t.pc.hasFirst = true ∧ pc.hasFirst = true)
    (hsecond : t.pc.hasSecond = true ∧ pc.hasSecond = true)
    (hothers : ∀ (d : Nat) (u : Thread Account), d ≠ c →
      s.threads[d]? = some u → u.ReadIsCurrent s.balance →
      u.ReadIsCurrent balance)
    (hcurrent : Thread.ReadIsCurrent balance { t with pc := pc })
    (hposted : ∀ a, balance a + t.posted a =
      s.balance a + Thread.posted a { t with pc := pc }) :
    Invariant order calls balances
      ⟨s.m, balance, s.threads.set c { t with pc := pc }⟩ := by
  have hne := h.distinct t (List.mem_of_getElem? ht) hsecond.1
  refine h.goto ht (OwnedBy.passes_of_eq fun a => ?_) (fun _ => hne) hothers
    hcurrent hposted
  simp [Thread.holds, hfirst, hsecond]

/-- **The mutexes keep what was loaded current until it is stored.** -/
theorem step (hcovers : order.Covers) (h : Invariant order calls balances s)
    {c : Nat} {s' : State Account} (hstep : Step order s c s') :
    Invariant order calls balances s' := by
  have hsame : ∀ (d : Nat) (u : Thread Account), d ≠ c →
      s.threads[d]? = some u → u.ReadIsCurrent s.balance →
      u.ReadIsCurrent s.balance := fun _ _ _ _ hu => hu
  cases hstep with
  | lockFirst t ht hpc hfree =>
      refine h.goto ht (OwnedBy.passes_lock hfree ?_ fun a ha => ?_) nofun
        hsame trivial fun a => ?_
      · simp [Thread.holds, Pc.hasFirst]
      · simp [Thread.holds, hpc, Pc.hasFirst, Pc.hasSecond, Ne.symm ha]
      · simp [Thread.posted, hpc, Pc.debited, Pc.credited, State.lock]
  | lockSecond t ht hpc hfree =>
      have hne := h.ne_of_free ht hpc hfree
      refine h.goto ht (OwnedBy.passes_lock hfree ?_ fun a ha => ?_)
        (fun _ => hne) hsame trivial fun a => ?_
      · simp [Thread.holds, Pc.hasSecond]
      · simp [Thread.holds, hpc, Pc.hasFirst, Pc.hasSecond, Ne.symm ha]
      · simp [Thread.posted, hpc, Pc.debited, Pc.credited, State.lock]
  | loadFrom t ht hpc =>
      refine h.within ht ⟨by rw [hpc]; rfl, rfl⟩ ⟨by rw [hpc]; rfl, rfl⟩
        hsame rfl fun a => ?_
      simp [Thread.posted, hpc, Pc.debited, Pc.credited]
  | storeFrom t read ht hpc =>
      have hread := h.current c t ht
      rw [Thread.ReadIsCurrent, hpc] at hread
      have hholds := (hcovers.holds (t := t) (by rw [hpc]; rfl)
        (by rw [hpc]; rfl)).1
      refine h.within ht ⟨by rw [hpc]; rfl, rfl⟩ ⟨by rw [hpc]; rfl, rfl⟩
        (h.unread hcovers ht hholds _) trivial fun a => ?_
      by_cases ha : a = t.call.fromAccount
      · subst ha
        simp [Thread.posted, hpc, Pc.debited, Pc.credited, State.store,
          hread]
        omega
      · simp [Thread.posted, hpc, Pc.debited, Pc.credited, State.store,
          Function.update_of_ne ha, Ne.symm ha]
  | loadTo t ht hpc =>
      refine h.within ht ⟨by rw [hpc]; rfl, rfl⟩ ⟨by rw [hpc]; rfl, rfl⟩
        hsame rfl fun a => ?_
      simp [Thread.posted, hpc, Pc.debited, Pc.credited]
  | storeTo t read ht hpc =>
      have hread := h.current c t ht
      rw [Thread.ReadIsCurrent, hpc] at hread
      have hholds := (hcovers.holds (t := t) (by rw [hpc]; rfl)
        (by rw [hpc]; rfl)).2
      refine h.within ht ⟨by rw [hpc]; rfl, rfl⟩ ⟨by rw [hpc]; rfl, rfl⟩
        (h.unread hcovers ht hholds _) trivial fun a => ?_
      by_cases ha : a = t.call.toAccount
      · subst ha
        simp [Thread.posted, hpc, Pc.debited, Pc.credited, State.store,
          hread]
        omega
      · simp [Thread.posted, hpc, Pc.debited, Pc.credited, State.store,
          Function.update_of_ne ha, Ne.symm ha]
  | unlockSecond t ht hpc =>
      have hne := h.distinct t (List.mem_of_getElem? ht) (by rw [hpc]; rfl)
      refine h.goto ht (OwnedBy.passes_unlock ?_ ?_ fun a ha => ?_) nofun
        hsame trivial fun a => ?_
      · simp [Thread.holds, hpc, Pc.hasSecond]
      · simp [Thread.holds, Pc.hasFirst, Pc.hasSecond, hne]
      · simp [Thread.holds, hpc, Pc.hasFirst, Pc.hasSecond, Ne.symm ha]
      · simp [Thread.posted, hpc, Pc.debited, Pc.credited, State.unlock]
  | unlockFirst t ht hpc =>
      refine h.goto ht (OwnedBy.passes_unlock ?_ ?_ fun a ha => ?_) nofun
        hsame trivial fun a => ?_
      · simp [Thread.holds, hpc, Pc.hasFirst]
      · simp [Thread.holds, Pc.hasFirst, Pc.hasSecond]
      · simp [Thread.holds, hpc, Pc.hasFirst, Pc.hasSecond, Ne.symm ha]
      · simp [Thread.posted, hpc, Pc.debited, Pc.credited, State.unlock]

end Invariant

theorem invariant_of_reaches (hcovers : order.Covers)
    (h : Reaches (Step order) (.start calls balances) s) :
    Invariant order calls balances s :=
  h.invariant (fun _ _ _ hs hstep => hs.step hcovers hstep)
    (.start order calls balances)

end GoPrep.Ports.Transfer
