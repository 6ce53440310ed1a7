import GoPrep.Ports.ConnectionPoolLive

/-!
# Where the connections are

Whatever the factory answers and whenever the pool is closed, a connection is
in one place: in the channel, with one borrower, with one call of `Release` or
`Destroy`, or closed.  The nils that a failed `Destroy` puts into circulation
change nothing about that.

## Main results

* `Moves.count_cases` — a move passes a connection on.
* `Conserved.step` — the invariant of all interleavings.
* `connections_conserved` — no connection is lost, shared, or used again after
  its file descriptor was closed.
-/

namespace GoPrep.Ports.ConnectionPool

open GoPrep.Verified.ThreadTable
open GoPrep.Verified.Transition

/-- Connection `n` is with the call. -/
def Call.carries (n : Nat) (call : Call) : Bool :=
  decide (call.carried = some (some n))

/-- How often connection `n` is found. -/
def State.count (s : State) (n : Nat) : Nat :=
  s.pool.idle.count (some n) + s.calls.countP (Call.carries n) +
    s.pool.closed.count (some n)

/-- Every connection made is in one place. -/
def Conserved (s : State) : Prop :=
  ∀ n, s.count n = if n < s.pool.made then 1 else 0

theorem conserved_initial (maxSize : Nat) :
    Conserved (State.initial maxSize) := by
  intro n
  have hidle : ((List.range' 0 maxSize).map some).count (some n) =
      if n < maxSize then 1 else 0 := by
    rw [List.count_map_of_injective _ _ fun _ _ => Option.some.inj,
      ← List.range_eq_range', List.count_range]
  show ((List.range' 0 maxSize).map some).count (some n) + 0 + 0 = _
  rw [hidle]
  rfl

namespace Moves

variable {p q : Pool} {old new : Call}

/-- **A move passes a connection on**, closes it, or makes it. -/
theorem count_cases (h : Moves p old new q) (n : Nat) :
    (q.made = p.made ∧
      q.idle.count (some n) + (if new.carries n then 1 else 0) +
          q.closed.count (some n) =
        p.idle.count (some n) + (if old.carries n then 1 else 0) +
          p.closed.count (some n)) ∨
    (q.made = p.made + 1 ∧ q.idle = p.idle ∧ q.closed = p.closed ∧
      old.carried = none ∧ new.carried = some (some p.made)) := by
  cases h with
  | acquireIdle afterClose ctxDone conn rest hidle =>
      refine .inl ⟨rfl, ?_⟩
      simp [hidle, Call.carries, Call.carried, List.count_cons]
  | releaseSends conn _ | destroySends _ conn _ =>
      refine .inl ⟨rfl, ?_⟩
      simp [Pool.send, Call.carries, Call.carried, List.count_append,
        List.count_singleton]
  | releaseCloses conn | destroyCloses conn =>
      refine .inl ⟨rfl, ?_⟩
      simp [Pool.closeFileDescriptor, Call.carries, Call.carried,
        List.count_append, List.count_singleton]
      omega
  | destroyClosesNew conn newConn =>
      refine .inl ⟨rfl, ?_⟩
      cases newConn with
      | none =>
          simp [Pool.closeFileDescriptor, Call.carries, Call.carried,
            List.count_append]
      | some m =>
          simp [Pool.closeFileDescriptor, Call.carries, Call.carried,
            List.count_append, List.count_singleton]
          omega
  | destroyMakes conn => exact .inr ⟨rfl, rfl, rfl, rfl, rfl⟩
  | destroyDone conn newConn _ | destroyDefault conn newConn _ =>
      refine .inl ⟨rfl, ?_⟩
      cases newConn <;> simp [Call.carries, Call.carried]
  | _ => exact .inl ⟨rfl, rfl⟩

/-- What is closed stays closed. -/
theorem closed_grows (h : Moves p old new q) : p.closed <+: q.closed := by
  cases h with
  | releaseCloses | destroyCloses | destroyClosesNew =>
      exact List.prefix_append _ _
  | _ => exact List.prefix_refl _

end Moves

namespace Conserved

variable {s t : State} {a : Action}

/-- A step that begins a call without a connection. -/
theorem begin (h : Conserved s) {call : Call} (hcall : call.carried = none) :
    Conserved { s with calls := s.calls ++ [call] } := by
  intro n
  have hsame := h n
  have hcarries : call.carries n = false := by
    rw [Call.carries, hcall]
    rfl
  rw [State.count] at hsame ⊢
  rw [List.countP_append, List.countP_singleton, hcarries]
  exact hsame

/-- **Every disciplined step preserves the invariant.** -/
theorem step (h : Conserved s) (hstep : DisciplinedStep s a t) :
    Conserved t := by
  obtain ⟨hstep, hdisciplined⟩ := hstep
  cases hstep with
  | acquire => exact h.begin rfl
  | close => exact h.begin rfl
  | give giving conn => exact absurd hdisciplined id
  | ctxDone c afterClose ctxDone pc hc =>
      intro n
      have hset := countP_set (Call.carries n) hc
        (.acquire afterClose true pc)
      have hsame : (Call.acquire afterClose true pc).carries n =
          (Call.acquire afterClose ctxDone pc).carries n := by
        cases pc with
        | acquired conn held => cases held <;> rfl
        | _ => rfl
      have hbefore := h n
      rw [State.count] at hbefore ⊢
      rw [hsame] at hset
      show s.pool.idle.count (some n) + (s.calls.set c _).countP _ +
        s.pool.closed.count (some n) = if n < s.pool.made then 1 else 0
      omega
  | giveBack giving c afterClose ctxDone conn hc =>
      intro n
      have hset := countP_set (Call.carries n) hc
        (.acquire afterClose ctxDone (.acquired conn false))
      have hgiven : (giving.call conn).carries n =
          (Call.acquire afterClose ctxDone
            (.acquired conn true)).carries n := by
        cases giving <;> rfl
      have hnone : (Call.acquire afterClose ctxDone
          (.acquired conn false)).carries n = false := rfl
      have hbefore := h n
      rw [State.count] at hbefore ⊢
      rw [hnone] at hset
      show s.pool.idle.count (some n) + (s.calls.set c _ ++ [_]).countP _ +
        s.pool.closed.count (some n) = if n < s.pool.made then 1 else 0
      rw [List.countP_append, List.countP_singleton, hgiven]
      simp only [Bool.false_eq_true, if_false] at hset
      omega
  | move c old new pool hc hmove =>
      intro n
      have hset := countP_set (Call.carries n) hc new
      have hbefore := h n
      rw [State.count] at hbefore ⊢
      show pool.idle.count (some n) + (s.calls.set c new).countP _ +
        pool.closed.count (some n) = if n < pool.made then 1 else 0
      rcases hmove.count_cases n with ⟨hmade, hbalance⟩ |
        ⟨hmade, hidle, hclosed, hold, hnew⟩
      · rw [hmade]
        omega
      · -- the connection made is new to all of them
        have hfirst : old.carries n = false := by
          rw [Call.carries, hold]
          rfl
        have hlast : new.carries n = decide (s.pool.made = n) := by
          rw [Call.carries, hnew]
          simp
        rw [hfirst, hlast] at hset
        rw [hidle, hclosed, hmade]
        by_cases hn : s.pool.made = n
        · rw [hn, if_neg (Nat.lt_irrefl n)] at hbefore
          rw [hn, decide_eq_true rfl] at hset
          rw [hn, if_pos (Nat.lt_succ_self n)]
          simp only [Bool.false_eq_true, if_false, if_true] at hset
          omega
        · have hlt : n < s.pool.made + 1 ↔ n < s.pool.made := by omega
          simp only [hlt]
          simp [hn] at hset
          omega

/-- A connection has one borrower. -/
theorem exclusive (h : Conserved s) {c d n : Nat} {call other : Call}
    (hc : s.calls[c]? = some call) (hd : s.calls[d]? = some other)
    (hcall : call.carried = some (some n))
    (hother : other.carried = some (some n)) : c = d := by
  have hcount := h n
  have hle : s.calls.countP (Call.carries n) ≤ 1 := by
    rw [State.count] at hcount
    split at hcount <;> omega
  exact eq_of_countP_le_one hle hc hd (decide_eq_true hcall)
    (decide_eq_true hother)

/-- A connection that is closed is nowhere else. -/
theorem closed (h : Conserved s) {n : Nat} (hn : some n ∈ s.pool.closed) :
    s.pool.closed.count (some n) = 1 ∧ some n ∉ s.pool.idle ∧
      ∀ call ∈ s.calls, call.carried ≠ some (some n) := by
  have hcount := h n
  have hpos := List.count_pos_iff.mpr hn
  have hidle : s.pool.idle.count (some n) = 0 := by
    rw [State.count] at hcount
    split at hcount <;> omega
  have hcalls : s.calls.countP (Call.carries n) = 0 := by
    rw [State.count] at hcount
    split at hcount <;> omega
  refine ⟨?_, List.count_eq_zero.mp hidle, fun call hcall hcarried => ?_⟩
  · rw [State.count] at hcount
    split at hcount <;> omega
  · exact List.countP_eq_zero.mp hcalls call hcall (decide_eq_true hcarried)

end Conserved

theorem Step.closed_grows {s t : State} {a : Action} (h : Step s a t) :
    s.pool.closed <+: t.pool.closed := by
  cases h with
  | move c old new pool _ hmove => exact hmove.closed_grows
  | _ => exact List.prefix_refl _

/-- **No connection is lost, shared, or used after it was closed.**  In every
state reachable by users who give back what they borrowed, once, whatever
factory calls fail and however often the pool is closed: each connection made
so far is once in the channel, with a borrower, inside a `Release` or
`Destroy`, or closed; it is not with two calls; and once closed it stays
closed, is not closed again, and is in no later state in the channel or with a
call. -/
theorem connections_conserved {maxCap : Nat} {maxSize : Int}
    {succeeds : Nat → Bool} {s₀ : State}
    (hnew : newPool maxCap maxSize succeeds = .ok s₀) {s t : State}
    (hs : Reaches DisciplinedStep s₀ s) (ht : Reaches DisciplinedStep s t) :
    (∀ n, s.pool.idle.count (some n) + s.calls.countP (Call.carries n) +
        s.pool.closed.count (some n) = if n < s.pool.made then 1 else 0) ∧
    (∀ (c d n : Nat) (call other : Call), s.calls[c]? = some call →
      s.calls[d]? = some other → call.carried = some (some n) →
      other.carried = some (some n) → c = d) ∧
    ∀ n, some n ∈ s.pool.closed →
      t.pool.closed.count (some n) = 1 ∧ some n ∉ t.pool.idle ∧
        ∀ call ∈ t.calls, call.carried ≠ some (some n) := by
  obtain ⟨-, rfl⟩ := eq_initial_of_newPool hnew
  have hconserved : Conserved s :=
    hs.invariant (fun _ _ _ h hstep => h.step hstep) (conserved_initial _)
  have hlater : Conserved t :=
    ht.invariant (fun _ _ _ h hstep => h.step hstep) hconserved
  have hclosed : s.pool.closed <+: t.pool.closed :=
    ht.related (R := fun x y => x.pool.closed <+: y.pool.closed)
      (fun _ => List.prefix_refl _) List.IsPrefix.trans
      fun hstep => hstep.1.closed_grows
  exact ⟨hconserved,
    fun c d n call other hc hd => hconserved.exclusive hc hd,
    fun n hn => hlater.closed (hclosed.subset hn)⟩

/-- The one connection is destroyed and its replacement handed out. -/
theorem connections_conserved_replaced :
    ∃ s : State, s.pool.idle = [] ∧ s.pool.closed = [some 0] ∧
      s.calls[2]? = some (.acquire false false (.acquired (some 1) true)) ∧
      (∀ n, s.pool.idle.count (some n) + s.calls.countP (Call.carries n) +
        s.pool.closed.count (some n) = if n < s.pool.made then 1 else 0) ∧
      s.pool.closed.count (some 0) = 1 := by
  have hbegun : DisciplinedStep (State.initial 1) .acquire _ :=
    ⟨.acquire _, trivial⟩
  have hacquired := (Reaches.single hbegun).tail
    ⟨.move _ 0 _ _ _ rfl (.acquireIdle _ _ (some 0) [] rfl), trivial⟩
  have hdestroyed := ((hacquired.tail
    ⟨.giveBack _ .destroy 0 _ _ _ rfl, trivial⟩).tail
    ⟨.move _ 1 _ _ _ rfl (.destroyCloses _), trivial⟩).tail
    ⟨.move _ 1 _ _ _ rfl (.destroyMakes _), trivial⟩
  have hsent := (hdestroyed.tail
    ⟨.move _ 1 _ _ _ rfl (.destroyDefault _ _ rfl), trivial⟩).tail
    ⟨.move _ 1 _ _ _ rfl (.destroySends _ _ (by decide)), trivial⟩
  have hagain := (hsent.tail ⟨.acquire _, trivial⟩).tail
    ⟨.move _ 2 _ _ _ rfl (.acquireIdle _ _ (some 1) [] rfl), trivial⟩
  have hnew : newPool 1024 1 (fun _ => true) = .ok (State.initial 1) := rfl
  obtain ⟨hcount, -, hclosed⟩ := connections_conserved hnew hagain .refl
  exact ⟨_, rfl, rfl, rfl, hcount, (hclosed 0 (by decide)).1⟩

end GoPrep.Ports.ConnectionPool
