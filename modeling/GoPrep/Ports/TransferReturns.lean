import GoPrep.Ports.Transfer
import GoPrep.Verified.Inevitable
import GoPrep.Verified.WaitGraph

/-!
# When the transfers return

A thread that calls `transfer` waits at most at its two locks, so the calls
of a program return in every schedule exactly when the graph with an edge from
the first to the second account of each call has no cycle.  In the order of
the arguments a cycle is as easy to write as two opposite transfers; in the
order of the addresses only a transfer from an account to itself makes one.

## Main results

* `progress` — without a cycle some thread can go on until all have returned.
* `exists_deadlocked` — around a cycle every thread can take its first mutex,
  and none ever its second.
* `transfers_return_iff` — both versions, with the balances they leave.
-/

namespace GoPrep.Ports.Transfer

open GoPrep.Verified.ThreadTable
open GoPrep.Verified.Transition
open GoPrep.Verified.WaitGraph
open Relation (TransGen)

variable {Account : Type*} [LinearOrder Account] {order : LockOrder Account}
  {calls : List (Call Account)} {balances : Account → Int}
  {s s' : State Account}

def AllReturned (s : State Account) : Prop :=
  ∀ t ∈ s.threads, t.pc = .returned

/-- Some call locks `a` and then `b`. -/
def Edge (order : LockOrder Account) (calls : List (Call Account))
    (a b : Account) : Prop :=
  ∃ call ∈ calls, order call = (a, b)

/-! ## The rank -/

/-- The steps that are left. -/
def Pc.rank : Pc → Nat
  | .lockFirst => 8
  | .lockSecond => 7
  | .loadFrom => 6
  | .storeFrom _ => 5
  | .loadTo => 4
  | .storeTo _ => 3
  | .unlockSecond => 2
  | .unlockFirst => 1
  | .returned => 0

def State.rank (s : State Account) : Nat :=
  (s.threads.map fun t => t.pc.rank).sum

/-- A step rewrites the thread that takes it, which comes one step closer to
its return. -/
theorem Step.rewrites {c : Nat} (h : Step order s c s') :
    ∃ t pc, s.threads[c]? = some t ∧ t.pc.rank = pc.rank + 1 ∧
      s'.threads = s.threads.set c { t with pc := pc } := by
  cases h <;> exact ⟨_, _, ‹_›, by rw [‹Thread.pc _ = _›]; rfl, rfl⟩

theorem rank_step {c : Nat} (h : Step order s c s') : s'.rank < s.rank := by
  obtain ⟨t, pc, ht, hrank, hthreads⟩ := h.rewrites
  have hsum := sum_map_set (fun t => t.pc.rank) ht { t with pc := pc }
  rw [State.rank, hthreads, State.rank]
  simp only at hsum
  omega

/-! ## Without a cycle -/

/-- The mutex that the thread waits for. -/
def Thread.wants (order : LockOrder Account) (t : Thread Account) :
    Option Account :=
  match t.pc with
  | .lockFirst => some (order t.call).1
  | .lockSecond => some (order t.call).2
  | _ => none

/-- Only a thread that wants a mutex, which is taken, cannot go on. -/
theorem wants_of_stuck (hstuck : ∀ c s', ¬ Step order s c s') {c : Nat}
    {t : Thread Account} (ht : s.threads[c]? = some t) :
    t.pc = .returned ∨ ∃ a, t.wants order = some a ∧ s.m a ≠ none := by
  cases hpc : t.pc with
  | lockFirst =>
      refine .inr ⟨_, by rw [Thread.wants, hpc], fun hfree => ?_⟩
      exact hstuck _ _ (.lockFirst s c t ht hpc hfree)
  | lockSecond =>
      refine .inr ⟨_, by rw [Thread.wants, hpc], fun hfree => ?_⟩
      exact hstuck _ _ (.lockSecond s c t ht hpc hfree)
  | loadFrom => exact absurd (.loadFrom s c t ht hpc) (hstuck _ _)
  | storeFrom read => exact absurd (.storeFrom s c t read ht hpc) (hstuck _ _)
  | loadTo => exact absurd (.loadTo s c t ht hpc) (hstuck _ _)
  | storeTo read => exact absurd (.storeTo s c t read ht hpc) (hstuck _ _)
  | unlockSecond => exact absurd (.unlockSecond s c t ht hpc) (hstuck _ _)
  | unlockFirst => exact absurd (.unlockFirst s c t ht hpc) (hstuck _ _)
  | returned => exact .inl rfl

/-- A thread that holds one mutex and waits for another is at its second
lock. -/
theorem edge_of_waits (h : Invariant order calls balances s) (a b : Account)
    (hwaits : Waits (Thread.holds order) (Thread.wants order) s.threads a b) :
    Edge order calls a b := by
  obtain ⟨t, ht, hholds, hwants⟩ := hwaits
  have hcall : t.call ∈ calls := h.calls_eq ▸ List.mem_map_of_mem ht
  refine ⟨t.call, hcall, ?_⟩
  rw [Thread.holds] at hholds
  rw [Thread.wants] at hwants
  cases hpc : t.pc with
  | lockSecond =>
      rw [hpc] at hholds hwants
      have hfirst : (order t.call).1 = a := by
        simpa [Pc.hasFirst, Pc.hasSecond] using hholds
      exact Prod.ext hfirst (Option.some.inj hwants)
  | lockFirst =>
      rw [hpc] at hholds
      simp [Pc.hasFirst, Pc.hasSecond] at hholds
  | _ =>
      rw [hpc] at hwants
      cases hwants

/-- **Without a cycle there is no deadlock.** -/
theorem progress (h : Invariant order calls balances s)
    (hacyclic : Acyclic (Edge order calls)) (hrest : ¬ AllReturned s) :
    ∃ c s', Step order s c s' := by
  by_contra hstuck
  push Not at hstuck
  have hwants : ∀ t ∈ s.threads, t.pc = .returned ∨
      ∃ a, t.wants order = some a ∧ s.m a ≠ none := by
    intro t ht
    obtain ⟨c, hc⟩ := List.mem_iff_getElem?.mp ht
    exact wants_of_stuck hstuck hc
  have hblocked : ∀ t ∈ s.threads, ∀ a, t.wants order = some a →
      ∃ u ∈ s.threads, u.holds order a = true := by
    intro t ht a ha
    rcases hwants t ht with hreturned | ⟨b, hb, htaken⟩
    · rw [Thread.wants, hreturned] at ha
      cases ha
    · obtain rfl := Option.some.inj (ha.symm.trans hb)
      obtain ⟨c, hc⟩ := Option.ne_none_iff_exists'.mp htaken
      have hholds := ((h.owned a) c).mpr hc
      rw [List.getElem?_map] at hholds
      obtain ⟨u, hu, hholds⟩ := Option.map_eq_some_iff.mp hholds
      exact ⟨u, List.mem_of_getElem? hu, hholds⟩
  have hwaiting : ∀ t ∈ s.threads, ∀ a, t.holds order a = true →
      ∃ b, t.wants order = some b := by
    intro t ht a hholds
    rcases hwants t ht with hreturned | ⟨b, hb, -⟩
    · simp [Thread.holds, hreturned, Pc.hasFirst, Pc.hasSecond] at hholds
    · exact ⟨b, hb⟩
  have hne : ∃ t ∈ s.threads, ∃ a, t.wants order = some a := by
    simp only [AllReturned, not_forall] at hrest
    obtain ⟨t, ht, hnot⟩ := hrest
    rcases hwants t ht with hreturned | ⟨a, ha, -⟩
    · exact absurd hreturned hnot
    · exact ⟨t, ht, a, ha⟩
  obtain ⟨a, ha⟩ := exists_cycle_of_blocked hblocked hwaiting hne
  exact hacyclic.mono (edge_of_waits h) a ha

/-! ## Around a cycle -/

/-- For every account on a cycle, a thread that holds its mutex waits for that
of an account on a cycle. -/
def Deadlocked (order : LockOrder Account) (calls : List (Call Account))
    (s : State Account) : Prop :=
  ∀ a, TransGen (Edge order calls) a a →
    ∃ (c : Nat) (t : Thread Account), s.threads[c]? = some t ∧
      t.pc = .lockSecond ∧ (order t.call).1 = a ∧
      TransGen (Edge order calls) (order t.call).2 (order t.call).2

/-- A thread moves on from its second lock only when the mutex is free. -/
theorem Step.free_of_lockSecond {c : Nat} (h : Step order s c s')
    {t : Thread Account} (ht : s.threads[c]? = some t)
    (hpc : t.pc = .lockSecond) : s.m (order t.call).2 = none := by
  have hat : ∀ {u : Thread Account}, s.threads[c]? = some u →
      u.pc = .lockSecond := fun hu =>
    Option.some.inj (ht.symm.trans hu) ▸ hpc
  cases h with
  | lockSecond u hu _ hfree =>
      rwa [Option.some.inj (ht.symm.trans hu)]
  | lockFirst u hu hpcu _ => cases hpcu.symm.trans (hat hu)
  | loadFrom u hu hpcu => cases hpcu.symm.trans (hat hu)
  | storeFrom u read hu hpcu => cases hpcu.symm.trans (hat hu)
  | loadTo u hu hpcu => cases hpcu.symm.trans (hat hu)
  | storeTo u read hu hpcu => cases hpcu.symm.trans (hat hu)
  | unlockSecond u hu hpcu => cases hpcu.symm.trans (hat hu)
  | unlockFirst u hu hpcu => cases hpcu.symm.trans (hat hu)

/-- **Nobody gets out of a deadlock.** -/
theorem Deadlocked.step (hs : Invariant order calls balances s)
    (h : Deadlocked order calls s) {c : Nat} (hstep : Step order s c s') :
    Deadlocked order calls s' := by
  intro a ha
  obtain ⟨d, t, ht, hpc, hfirst, hnext⟩ := h a ha
  refine ⟨d, t, ?_, hpc, hfirst, hnext⟩
  obtain ⟨old, pc, hold, -, hthreads⟩ := hstep.rewrites
  rw [hthreads, getElem?_set_eq hold, if_neg, ht]
  rintro rfl
  -- the thread would need the mutex that the next one on the cycle holds
  have hfree := hstep.free_of_lockSecond ht hpc
  obtain ⟨e, u, hu, hpcu, hfirstu, -⟩ := h _ hnext
  have hholds : u.holds order (order t.call).2 = true := by
    simp [Thread.holds, hpcu, Pc.hasFirst, hfirstu]
  cases hfree.symm.trans ((hs.owned _).owner_of_holds hu hholds)

/-- Only threads that work for the accounts in `held` have begun, and those on
a cycle among them are at their second lock. -/
structure Grabbed (order : LockOrder Account) (calls : List (Call Account))
    (held : List Account) (s : State Account) : Prop where
  waiting : ∀ a ∈ held, TransGen (Edge order calls) a a →
    ∃ (c : Nat) (t : Thread Account), s.threads[c]? = some t ∧
      t.pc = .lockSecond ∧ (order t.call).1 = a ∧
      TransGen (Edge order calls) (order t.call).2 (order t.call).2
  free : ∀ a, a ∉ held → s.m a = none
  fresh : ∀ (c : Nat) (call : Call Account), calls[c]? = some call →
    (order call).1 ∉ held → s.threads[c]? = some ⟨call, .lockFirst⟩

namespace Grabbed

variable {held : List Account}

omit [LinearOrder Account] in
/-- Of such an account nothing more is asked. -/
theorem skip (h : Grabbed order calls held s) {a : Account}
    (ha : a ∈ held ∨ ¬ TransGen (Edge order calls) a a) :
    Grabbed order calls (a :: held) s where
  waiting b hb hcycle := by
    rcases List.mem_cons.mp hb with rfl | hb
    · exact h.waiting b (ha.resolve_right (not_not_intro hcycle)) hcycle
    · exact h.waiting b hb hcycle
  free b hb := h.free b fun hmem => hb (List.mem_cons_of_mem a hmem)
  fresh c call hcall hnot :=
    h.fresh c call hcall fun hmem => hnot (List.mem_cons_of_mem a hmem)

/-- A thread takes the mutex of one more account on a cycle. -/
theorem grab (h : Grabbed order calls held s) {a : Account} (ha : a ∉ held)
    {c : Nat} {call : Call Account} (hcall : calls[c]? = some call)
    (hfirst : (order call).1 = a)
    (hnext : TransGen (Edge order calls) (order call).2 (order call).2) :
    ∃ s', Step order s c s' ∧ Grabbed order calls (a :: held) s' := by
  have ht := h.fresh c call hcall (hfirst ▸ ha)
  have hfree : s.m (order call).1 = none := h.free _ (hfirst ▸ ha)
  refine ⟨_, .lockFirst s c _ ht rfl hfree, ?_, ?_, ?_⟩
  · intro b hb hcycle
    rcases List.mem_cons.mp hb with rfl | hb
    · refine ⟨c, ⟨call, .lockSecond⟩, ?_, rfl, hfirst, hnext⟩
      exact List.getElem?_set_self (lt_length_of_getElem? ht)
    · obtain ⟨d, t, hd, hpc, hrest⟩ := h.waiting b hb hcycle
      refine ⟨d, t, getElem?_set_of_ne ht hd ?_ _, hpc, hrest⟩
      rintro rfl
      cases hpc
  · intro b hb
    obtain ⟨hba, hb⟩ := List.ne_and_not_mem_of_not_mem_cons hb
    exact (Function.update_of_ne (hfirst ▸ hba) _ _).trans (h.free b hb)
  · intro d call' hcall' hnot
    obtain ⟨hne, hnot⟩ := List.ne_and_not_mem_of_not_mem_cons hnot
    have hd := h.fresh d call' hcall' hnot
    refine getElem?_set_of_ne ht hd ?_ _
    intro heq
    cases heq
    exact hne hfirst

end Grabbed

theorem exists_grabbed (order : LockOrder Account)
    (calls : List (Call Account)) (balances : Account → Int)
    (held : List Account) :
    ∃ s, Reaches (Step order) (.start calls balances) s ∧
      Grabbed order calls held s := by
  induction held with
  | nil =>
      refine ⟨_, .refl, nofun, fun _ _ => rfl, fun c call hcall _ => ?_⟩
      rw [State.start, List.getElem?_map, hcall, Option.map_some]
  | cons a held ih =>
      obtain ⟨s, hreach, h⟩ := ih
      by_cases hskip : a ∈ held ∨ ¬ TransGen (Edge order calls) a a
      · exact ⟨s, hreach, h.skip hskip⟩
      · push Not at hskip
        obtain ⟨ha, hcycle⟩ := hskip
        obtain ⟨b, ⟨call, hmem, hcall⟩, hnext⟩ := cycle_next hcycle
        obtain ⟨c, hc⟩ := List.mem_iff_getElem?.mp hmem
        have hfirst : (order call).1 = a := by rw [hcall]
        have hsecond : (order call).2 = b := by rw [hcall]
        obtain ⟨s', hstep, h'⟩ := h.grab ha hc hfirst (hsecond ▸ hnext)
        exact ⟨s', hreach.tail hstep, h'⟩

/-- **Around a cycle the threads can deadlock.** -/
theorem exists_deadlocked (order : LockOrder Account)
    (calls : List (Call Account)) (balances : Account → Int) :
    ∃ s, Reaches (Step order) (.start calls balances) s ∧
      Deadlocked order calls s := by
  obtain ⟨s, hreach, h⟩ := exists_grabbed order calls balances
    (calls.map fun call => (order call).1)
  refine ⟨s, hreach, fun a hcycle => h.waiting a ?_ hcycle⟩
  obtain ⟨b, ⟨call, hmem, hcall⟩, -⟩ := cycle_next hcycle
  exact List.mem_map.mpr ⟨call, hmem, by rw [hcall]⟩

/-! ## When all calls return -/

/-- **All calls return in every schedule exactly when no cycle threatens.** -/
theorem inevitable_iff_acyclic (hcovers : order.Covers)
    (calls : List (Call Account)) (balances : Account → Int) :
    Inevitable (Step order) AllReturned (.start calls balances) ↔
      Acyclic (Edge order calls) := by
  have hstep : ∀ s c s', Invariant order calls balances s →
      Step order s c s' → Invariant order calls balances s' :=
    fun _ _ _ hs hst => hs.step hcovers hst
  constructor
  · intro hreturn a hcycle
    obtain ⟨s, hreach, hdead⟩ := exists_deadlocked order calls balances
    have hstay : ∀ s c s', AllReturned s → Step order s c s' →
        AllReturned s' := by
      intro s c s' hall hst
      obtain ⟨t, pc, ht, hrank, -⟩ := hst.rewrites
      rw [hall t (List.mem_of_getElem? ht), Pc.rank] at hrank
      omega
    have htrap : ¬ Inevitable (Step order) AllReturned s := by
      refine Inevitable.not_of_trap
        (D := fun s => Invariant order calls balances s ∧
          Deadlocked order calls s)
        (fun s c s' hs hst => ⟨hs.1.step hcovers hst, hs.2.step hs.1 hst⟩)
        (fun s hs hall => ?_)
        ⟨invariant_of_reaches hcovers hreach, hdead⟩
      obtain ⟨c, t, ht, hpc, -⟩ := hs.2 a hcycle
      cases hpc.symm.trans (hall t (List.mem_of_getElem? ht))
    exact htrap (hreturn.of_reaches hstay hreach)
  · intro hacyclic
    exact .of_rank State.rank hstep (fun _ _ _ _ hst => rank_step hst)
      (fun s hs hrest => progress hs hacyclic hrest)
      (.start order calls balances)

/-- Locks taken in the order of the addresses go round in a circle only where
a call transfers from an account to itself. -/
theorem acyclic_addressOrder :
    Acyclic (Edge addressOrder calls) ↔
      ∀ call ∈ calls, call.fromAccount ≠ call.toAccount := by
  constructor
  · intro hacyclic call hcall heq
    have hself : addressOrder call = (call.toAccount, call.toAccount) := by
      simp [addressOrder, heq]
    exact hacyclic _ (.single ⟨call, hcall, hself⟩)
  · intro hdistinct
    apply acyclic_of_lt
    rintro a b ⟨call, hcall, horder⟩
    have hne := hdistinct call hcall
    by_cases hlt : call.toAccount < call.fromAccount
    · have hswap : addressOrder call = (call.toAccount, call.fromAccount) :=
        if_pos hlt
      obtain ⟨rfl, rfl⟩ := Prod.mk.inj (hswap.symm.trans horder)
      exact hlt
    · have hkeep : addressOrder call = (call.fromAccount, call.toAccount) :=
        if_neg hlt
      obtain ⟨rfl, rfl⟩ := Prod.mk.inj (hkeep.symm.trans horder)
      exact lt_of_le_of_ne (not_lt.mp hlt) hne

/-- What a call that has returned has added to the balance of `a`. -/
def Call.moved (a : Account) (call : Call Account) : Int :=
  (if call.fromAccount = a then -call.amt else 0) +
    if call.toAccount = a then call.amt else 0

theorem Invariant.balance_of_allReturned
    (h : Invariant order calls balances s) (hall : AllReturned s)
    (a : Account) :
    s.balance a = balances a + total (calls.map (Call.moved a)) := by
  have hposted : s.threads.map (Thread.posted a) =
      calls.map (Call.moved a) := by
    rw [← h.calls_eq, List.map_map]
    refine List.map_congr_left fun t ht => ?_
    simp [Thread.posted, hall t ht, Pc.debited, Pc.credited, Call.moved]
  rw [h.ledger a, hposted]

/-- **When the transfers return, and what they leave.**  With the locks in the
order of the arguments every schedule ends with all calls returned exactly
when no accounts pass money round in a circle, and with the locks in the order
of the addresses exactly when no account pays itself.  Either way no update is
lost: in every state a balance is what it was and what the threads have stored
so far, and once all have returned what the calls ask for. -/
theorem transfers_return_iff (calls : List (Call Account))
    (balances : Account → Int) :
    (Inevitable (Step argumentOrder) AllReturned (.start calls balances) ↔
        ∀ a, ¬ TransGen (fun b c => ∃ call ∈ calls,
          call.fromAccount = b ∧ call.toAccount = c) a a) ∧
      (Inevitable (Step addressOrder) AllReturned (.start calls balances) ↔
        ∀ call ∈ calls, call.fromAccount ≠ call.toAccount) ∧
      ∀ order ∈ [argumentOrder, addressOrder], ∀ s,
        Reaches (Step order) (.start calls balances) s → ∀ a,
          s.balance a = balances a +
              total (s.threads.map (Thread.posted a)) ∧
            (AllReturned s → s.balance a =
              balances a + total (calls.map (Call.moved a))) := by
  refine ⟨?_, ?_, ?_⟩
  · rw [inevitable_iff_acyclic covers_argumentOrder]
    have hedge : Edge argumentOrder calls = fun b c => ∃ call ∈ calls,
        call.fromAccount = b ∧ call.toAccount = c := by
      funext b c
      simp [Edge, argumentOrder]
    rw [hedge, Acyclic]
  · rw [inevitable_iff_acyclic covers_addressOrder, acyclic_addressOrder]
  · intro order horder s hreach a
    have hcovers : order.Covers := by
      rcases List.mem_pair.mp horder with rfl | rfl
      · exact covers_argumentOrder
      · exact covers_addressOrder
    have h := invariant_of_reaches hcovers hreach
    exact ⟨h.ledger a, fun hall => h.balance_of_allReturned hall a⟩

/-- Two opposite transfers. -/
theorem transfers_return_iff_opposite :
    ¬ Inevitable (Step argumentOrder) AllReturned
        (.start [⟨0, 1, 5⟩, ⟨1, 0, 7⟩] fun _ : Nat => 10) ∧
      Inevitable (Step addressOrder) AllReturned
        (.start [⟨0, 1, 5⟩, ⟨1, 0, 7⟩] fun _ : Nat => 10) := by
  obtain ⟨hargument, haddress, -⟩ := transfers_return_iff
    [⟨0, 1, 5⟩, ⟨1, 0, 7⟩] fun _ : Nat => 10
  constructor
  · rw [hargument]
    intro hacyclic
    exact hacyclic 0 (.head ⟨⟨0, 1, 5⟩, by simp, rfl, rfl⟩
      (.single ⟨⟨1, 0, 7⟩, by simp, rfl, rfl⟩))
  · rw [haddress]
    decide

end GoPrep.Ports.Transfer
