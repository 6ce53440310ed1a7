import GoPrep.Ports.ConnectionPoolSlots

/-!
# Which connections are handed out

`idle_connections` is filled by `NewPool`, by `Release` and by `Destroy`.  The
first two send connections that are alive.  `Destroy` sends what its factory
call returned, without looking at the error, so after a failed call it sends
nil.

## Main results

* `LiveConns` — connections that are made, not closed, and held once each;
  what keeps a collection so.
* `LiveInvariant.step` — the invariant of all interleavings in which `Destroy`
  sends no nil.
* `handsOutLive_of_nilNotSent` — along such runs `Acquire` hands out live
  connections only, and every step that goes on to send nil has a
  continuation in which it does not.
* `acquire_returns_nil` — a run in which it returns nil.
-/

namespace GoPrep.Ports.ConnectionPool

open GoPrep.Verified.ThreadTable
open GoPrep.Verified.Transition

/-! ## Live connections -/

/-- Connections that were made and not closed, no two of them the same. -/
structure LiveConns (conns : List Conn) (made : Nat) (closed : List Conn) :
    Prop where
  made_lt : ∀ conn ∈ conns, ∃ n, conn = some n ∧ n < made
  notClosed : ∀ conn ∈ conns, conn ∉ closed
  nodup : conns.Nodup
  closed_lt : ∀ n, some n ∈ closed → n < made

namespace LiveConns

variable {conns conns' : List Conn} {made : Nat} {closed : List Conn}

theorem perm (h : LiveConns conns made closed) (hperm : conns'.Perm conns) :
    LiveConns conns' made closed where
  made_lt := fun conn hconn => h.made_lt conn (hperm.mem_iff.mp hconn)
  notClosed := fun conn hconn => h.notClosed conn (hperm.mem_iff.mp hconn)
  nodup := hperm.nodup_iff.mpr h.nodup
  closed_lt := h.closed_lt

/-- A connection is made. -/
theorem make (h : LiveConns conns made closed) :
    LiveConns (some made :: conns) (made + 1) closed where
  made_lt := by
    intro conn hconn
    rcases List.mem_cons.mp hconn with rfl | hconn
    · exact ⟨made, rfl, Nat.lt_succ_self _⟩
    · obtain ⟨n, rfl, hlt⟩ := h.made_lt conn hconn
      exact ⟨n, rfl, Nat.lt_succ_of_lt hlt⟩
  notClosed := by
    intro conn hconn
    rcases List.mem_cons.mp hconn with rfl | hconn
    · exact fun hclosed => Nat.lt_irrefl _ (h.closed_lt made hclosed)
    · exact h.notClosed conn hconn
  nodup := by
    refine List.nodup_cons.mpr ⟨fun hmem => ?_, h.nodup⟩
    obtain ⟨n, heq, hlt⟩ := h.made_lt _ hmem
    obtain rfl := Option.some.inj heq
    exact Nat.lt_irrefl _ hlt
  closed_lt := fun n hn => Nat.lt_succ_of_lt (h.closed_lt n hn)

/-- A connection is closed. -/
theorem close {conn : Conn} (h : LiveConns (conn :: conns) made closed) :
    LiveConns conns made (closed ++ [conn]) where
  made_lt := fun other hother => h.made_lt other (List.mem_cons_of_mem _ hother)
  notClosed := by
    intro other hother hclosed
    rcases List.mem_append.mp hclosed with hclosed | hclosed
    · exact h.notClosed other (List.mem_cons_of_mem _ hother) hclosed
    · obtain rfl := List.mem_singleton.mp hclosed
      exact (List.nodup_cons.mp h.nodup).1 hother
  nodup := (List.nodup_cons.mp h.nodup).2
  closed_lt := by
    intro n hn
    rcases List.mem_append.mp hn with hn | hn
    · exact h.closed_lt n hn
    · obtain ⟨m, rfl, hlt⟩ := h.made_lt conn List.mem_cons_self
      obtain rfl := Option.some.inj (List.mem_singleton.mp hn)
      exact hlt

/-- `close_file_descriptor` is called with nil. -/
theorem closeNil (h : LiveConns conns made closed) :
    LiveConns conns made (closed ++ [none]) where
  made_lt := h.made_lt
  notClosed := by
    intro conn hconn hclosed
    rcases List.mem_append.mp hclosed with hclosed | hclosed
    · exact h.notClosed conn hconn hclosed
    · obtain ⟨n, rfl, -⟩ := h.made_lt conn hconn
      cases List.mem_singleton.mp hclosed
  nodup := h.nodup
  closed_lt := by
    intro n hn
    rcases List.mem_append.mp hn with hn | hn
    · exact h.closed_lt n hn
    · cases List.mem_singleton.mp hn

end LiveConns

/-! ## The connections of a state -/

namespace Call

/-- What an `Acquire` has returned with a nil error. -/
def result : Call → Option Conn
  | .acquire _ _ (.acquired conn _) => some conn
  | _ => none

/-- The connection of a borrower that has not given it back. -/
def held : Call → Option Conn
  | .acquire _ _ (.acquired conn true) => some conn
  | _ => none

/-- The connection a call holds, of a borrower or of a `Release` or `Destroy`
that has neither sent nor closed it. -/
def carried : Call → Option Conn
  | .acquire _ _ (.acquired conn true) => some conn
  | .release _ .returned => none
  | .release conn _ => some conn
  | .destroy conn .closing => some conn
  | .destroy _ (.selecting (some n)) => some (some n)
  | .destroy _ (.sending newConn) => some newConn
  | .destroy _ (.closingNew (some n)) => some (some n)
  | _ => none

end Call

/-- Every connection that is idle or with a call. -/
def State.conns (s : State) : List Conn :=
  s.pool.idle ++ s.calls.filterMap Call.carried

/-- What `Acquire` hands out is alive, and with one borrower only. -/
structure HandsOutLive (s : State) : Prop where
  made_lt : ∀ call ∈ s.calls, ∀ conn, call.result = some conn →
    ∃ n, conn = some n ∧ n < s.pool.made
  notClosed : ∀ conn ∈ s.calls.filterMap Call.held, conn ∉ s.pool.closed
  nodup : (s.calls.filterMap Call.held).Nodup

/-- A `Destroy` whose factory call failed gets to its `select` in a closed
pool only. -/
def NilNotSent (s : State) : Action → Prop
  | .move c => ∀ conn, s.calls[c]? = some (.destroy conn (.selecting none)) →
      s.pool.cancelled = true
  | _ => True

structure LiveInvariant (s : State) : Prop where
  conns : LiveConns s.conns s.pool.made s.pool.closed
  results : ∀ call ∈ s.calls, ∀ conn, call.result = some conn →
    ∃ n, conn = some n ∧ n < s.pool.made

theorem liveInvariant_initial (maxSize : Nat) :
    LiveInvariant (State.initial maxSize) where
  conns := by
    refine ⟨?_, fun _ _ => List.not_mem_nil, ?_, fun n hn => by cases hn⟩
    · intro conn hconn
      simp only [State.conns, State.initial, List.filterMap_nil,
        List.append_nil, List.mem_map, List.mem_range'_1] at hconn
      obtain ⟨n, hn, rfl⟩ := hconn
      exact ⟨n, rfl, by simpa [State.initial] using hn.2⟩
    · simp only [State.conns, State.initial, List.filterMap_nil,
        List.append_nil]
      exact (List.nodup_range' (n := maxSize)).map
        fun _ _ heq => Option.some.inj heq
  results := fun call hcall => by cases hcall

/-- **What a move does to the connections**: it passes one on, makes one, or
closes one. -/
theorem Moves.conns_cases {p q : Pool} {old new : Call}
    (h : Moves p old new q)
    (hnil : ∀ conn, old = .destroy conn (.selecting none) →
      p.cancelled = true) :
    (q.made = p.made ∧
      (q.closed = p.closed ∨ q.closed = p.closed ++ [none]) ∧
      (new.carried.toList ++ q.idle).Perm (old.carried.toList ++ p.idle)) ∨
    (q.made = p.made + 1 ∧ q.closed = p.closed ∧ q.idle = p.idle ∧
      old.carried = none ∧ new.carried = some (some p.made)) ∨
    (∃ conn, q.made = p.made ∧ q.closed = p.closed ++ [conn] ∧
      q.idle = p.idle ∧ old.carried = some conn ∧ new.carried = none) := by
  cases h with
  | acquireIdle afterClose ctxDone conn rest hidle =>
      refine .inl ⟨rfl, .inl rfl, ?_⟩
      rw [hidle]
      exact .refl _
  | releaseSends conn _ =>
      exact .inl ⟨rfl, .inl rfl, List.perm_append_singleton conn p.idle⟩
  | destroySends conn newConn _ =>
      exact .inl ⟨rfl, .inl rfl, List.perm_append_singleton newConn p.idle⟩
  | destroyMakes conn => exact .inr (.inl ⟨rfl, rfl, rfl, rfl, rfl⟩)
  | releaseCloses conn | destroyCloses conn =>
      exact .inr (.inr ⟨conn, rfl, rfl, rfl, rfl, rfl⟩)
  | destroyClosesNew conn newConn =>
      cases newConn with
      | none => exact .inl ⟨rfl, .inr rfl, .refl _⟩
      | some n => exact .inr (.inr ⟨some n, rfl, rfl, rfl, rfl, rfl⟩)
  | destroyDone conn newConn _ =>
      cases newConn <;> exact .inl ⟨rfl, .inl rfl, .refl _⟩
  | destroyDefault conn newConn hopen =>
      cases newConn with
      | none =>
          rw [hnil conn rfl] at hopen
          cases hopen
      | some n => exact .inl ⟨rfl, .inl rfl, .refl _⟩
  | _ => exact .inl ⟨rfl, .inl rfl, .refl _⟩

namespace LiveInvariant

variable {s t : State} {a : Action}

/-- The connections after one call has changed. -/
theorem conns_set_perm {c : Nat} {old : Call} (hc : s.calls[c]? = some old)
    (new : Call) (pool : Pool) :
    (old.carried.toList ++
      State.conns { pool := pool, calls := s.calls.set c new }).Perm
      (new.carried.toList ++ pool.idle ++
        s.calls.filterMap Call.carried) := by
  have hset := filterMap_set_perm Call.carried hc new
  have hidle := hset.append_left pool.idle
  rw [List.append_assoc]
  exact ((List.perm_append_comm_assoc _ _ _).trans hidle).trans
    (List.perm_append_comm_assoc _ _ _)

/-- The connections after a call has begun. -/
theorem conns_concat_perm (pool : Pool) (calls : List Call) (call : Call) :
    (State.conns { pool := pool, calls := calls ++ [call] }).Perm
      (call.carried.toList ++
        State.conns { pool := pool, calls := calls }) := by
  have hlast : [call].filterMap Call.carried = call.carried.toList := by
    rw [List.filterMap_cons]
    cases call.carried <;> rfl
  rw [State.conns, List.filterMap_append, hlast, ← List.append_assoc]
  exact List.perm_append_comm

/-- **A move keeps the connections alive.** -/
theorem conns_move (h : LiveInvariant s) {c : Nat} {old new : Call}
    {pool : Pool} (hc : s.calls[c]? = some old)
    (hmove : Moves s.pool old new pool)
    (hnil : ∀ conn, old = .destroy conn (.selecting none) →
      s.pool.cancelled = true) :
    s.pool.made ≤ pool.made ∧
      LiveConns (State.conns { pool := pool, calls := s.calls.set c new })
        pool.made pool.closed := by
  have hperm := conns_set_perm hc new pool
  rcases hmove.conns_cases hnil with ⟨hmade, hclosed, hpass⟩ |
    ⟨hmade, hclosed, hidle, hold, hnew⟩ |
    ⟨conn, hmade, hclosed, hidle, hold, hnew⟩
  · -- the connection passes between the call and the channel
    have hsame : (State.conns
        { pool := pool, calls := s.calls.set c new }).Perm s.conns := by
      refine (List.perm_append_left_iff old.carried.toList).mp
        (hperm.trans ((hpass.append_right _).trans ?_))
      rw [List.append_assoc]
      exact .refl _
    refine ⟨Nat.le_of_eq hmade.symm, ?_⟩
    rw [hmade]
    rcases hclosed with hclosed | hclosed
    · rw [hclosed]
      exact h.conns.perm hsame
    · rw [hclosed]
      exact (h.conns.perm hsame).closeNil
  · rw [hold, hnew, hidle] at hperm
    rw [hmade, hclosed]
    exact ⟨Nat.le_succ _, h.conns.make.perm hperm⟩
  · rw [hold, hnew, hidle] at hperm
    rw [hmade, hclosed]
    exact ⟨Nat.le_refl _, (h.conns.perm hperm).close⟩

/-- A connection that is returned was idle. -/
theorem result_move (h : LiveInvariant s) {c : Nat} {old new : Call}
    {pool : Pool} (hc : s.calls[c]? = some old)
    (hmove : Moves s.pool old new pool) {conn : Conn}
    (hresult : new.result = some conn) :
    ∃ n, conn = some n ∧ n < s.pool.made := by
  cases hmove with
  | acquireIdle afterClose ctxDone conn' rest hidle =>
      obtain rfl := Option.some.inj hresult
      refine h.conns.made_lt conn' (List.mem_append_left _ ?_)
      rw [hidle]
      exact List.mem_cons_self
  | _ => cases hresult

/-- **Every disciplined step that sends no nil preserves the invariant.** -/
theorem step (h : LiveInvariant s) (hnil : NilNotSent s a)
    (hstep : DisciplinedStep s a t) : LiveInvariant t := by
  obtain ⟨hstep, hdisciplined⟩ := hstep
  have hconcat : ∀ {call : Call}, call.carried = none →
      call.result = none →
      LiveInvariant { s with calls := s.calls ++ [call] } := by
    intro call hcarried hresult
    refine ⟨?_, forall_mem_concat h.results fun conn hconn => ?_⟩
    · have hperm := conns_concat_perm s.pool s.calls call
      rw [hcarried] at hperm
      exact h.conns.perm hperm
    · rw [hresult] at hconn
      cases hconn
  cases hstep with
  | acquire => exact hconcat rfl rfl
  | close => exact hconcat rfl rfl
  | give giving conn => exact absurd hdisciplined id
  | ctxDone c afterClose ctxDone pc hc =>
      have hold := h.results _ (List.mem_of_getElem? hc)
      have hsame : (Call.acquire afterClose true pc).carried =
          (Call.acquire afterClose ctxDone pc).carried ∧
          (Call.acquire afterClose true pc).result =
          (Call.acquire afterClose ctxDone pc).result := by
        cases pc with
        | acquired conn held => cases held <;> exact ⟨rfl, rfl⟩
        | _ => exact ⟨rfl, rfl⟩
      refine ⟨?_, forall_mem_set h.results (hsame.2 ▸ hold)⟩
      rw [State.conns, filterMap_congr_map (map_set_of_eq _ hc hsame.1)]
      exact h.conns
  | giveBack giving c afterClose ctxDone conn hc =>
      have hold := h.results _ (List.mem_of_getElem? hc)
      have hgiven := conns_set_perm hc
        (.acquire afterClose ctxDone (.acquired conn false)) s.pool
      have hbegun := conns_concat_perm s.pool (s.calls.set c
        (.acquire afterClose ctxDone (.acquired conn false)))
        (giving.call conn)
      have hcarried : (giving.call conn).carried = some conn := by
        cases giving <;> rfl
      rw [hcarried] at hbegun
      refine ⟨h.conns.perm (hbegun.trans hgiven),
        forall_mem_concat (forall_mem_set h.results hold) ?_⟩
      intro other hother
      cases giving <;> cases hother
  | move c old new pool hc hmove =>
      obtain ⟨hle, hconns⟩ := h.conns_move hc hmove fun conn hold =>
        hnil conn (hold ▸ hc)
      have hmono : ∀ conn : Conn,
          (∃ n, conn = some n ∧ n < s.pool.made) →
          ∃ n, conn = some n ∧ n < pool.made := by
        rintro conn ⟨n, rfl, hlt⟩
        exact ⟨n, rfl, Nat.lt_of_lt_of_le hlt hle⟩
      refine ⟨hconns, forall_mem_set (fun call hcall conn hconn =>
        hmono conn (h.results call hcall conn hconn)) fun conn hconn =>
        hmono conn (h.result_move hc hmove hconn)⟩

/-- What is borrowed is among the connections. -/
theorem held_sublist (calls : List Call) :
    (calls.filterMap Call.held).Sublist (calls.filterMap Call.carried) := by
  induction calls with
  | nil => exact .slnil
  | cons call calls ih =>
      cases hheld : call.held with
      | none =>
          rw [List.filterMap_cons_none hheld, List.filterMap_cons]
          cases call.carried with
          | none => exact ih
          | some conn => exact ih.cons conn
      | some conn =>
          have hcarried : call.carried = some conn := by
            unfold Call.held at hheld
            split at hheld
            · exact hheld
            · cases hheld
          rw [List.filterMap_cons_some hheld,
            List.filterMap_cons_some hcarried]
          exact ih.cons_cons conn

theorem handsOutLive (h : LiveInvariant s) : HandsOutLive s where
  made_lt := h.results
  notClosed := fun conn hconn => h.conns.notClosed conn
    (List.mem_append_right _ ((held_sublist s.calls).subset hconn))
  nodup := (h.conns.nodup.of_append_right).sublist (held_sublist s.calls)

end LiveInvariant

/-! ## A nil that is sent -/

/-- A nil in the channel reaches some `Acquire`. -/
theorem hands_out_idle_nil {s t : State} (ht : Reaches DisciplinedStep s t)
    (hnil : none ∈ t.pool.idle) :
    ∃ u, Reaches DisciplinedStep s u ∧ ¬ HandsOutLive u := by
  generalize hidle : t.pool.idle = idle at hnil
  induction idle generalizing t with
  | nil => cases hnil
  | cons conn rest ih =>
      have hacquired := (ht.tail ⟨.acquire t, trivial⟩).tail
        ⟨.move _ t.calls.length _ _ _ List.getElem?_concat_length
          (.acquireIdle _ _ conn rest hidle), trivial⟩
      cases conn with
      | none =>
          refine ⟨_, hacquired, fun hlive => ?_⟩
          obtain ⟨n, hn, -⟩ := hlive.made_lt
            (.acquire t.pool.cancelled false (.acquired none true))
            (List.mem_of_getElem? (List.getElem?_set_self (by simp))) none rfl
          cases hn
      | some n => exact ih hacquired rfl (by simpa using hnil)

/-- **A `Destroy` that goes on to send nil** can have it handed out. -/
theorem hands_out_nil {s t : State} {a : Action}
    (hslots : SlotInvariant t) (hstep : DisciplinedStep s a t)
    (hnil : ¬ NilNotSent s a) :
    ∃ u, Reaches DisciplinedStep t u ∧ ¬ HandsOutLive u := by
  cases hstep.1 with
  | move c old new pool hc hmove =>
      simp only [NilNotSent, not_forall] at hnil
      obtain ⟨conn, hdestroy, hopen⟩ := hnil
      obtain rfl := Option.some.inj (hc.symm.trans hdestroy)
      cases hmove with
      | destroyDone _ _ hcancelled => exact absurd hcancelled hopen
      | destroyDefault =>
          have hself := List.getElem?_set_self (lt_length_of_getElem? hc)
            (a := Call.destroy conn (.sending none))
          have hroom := hslots.idle_lt_of_sends (List.mem_of_getElem? hself)
            rfl
          have hsent : DisciplinedStep _ (.move c) _ :=
            ⟨.move _ c _ _ _ hself (.destroySends conn none hroom), trivial⟩
          exact hands_out_idle_nil (.single hsent)
            (List.mem_append_right _ (List.mem_singleton.mpr rfl))
  | _ => exact absurd trivial hnil

/-- **When `Acquire` hands out live connections only.**  Along every run of
users who give back what they borrowed, once, in which no `Destroy` whose
factory call failed gets to its `select` while the pool is open: what `Acquire`
has returned with a nil error was made by the factory, and what is borrowed is
not closed and has one borrower.  And every step past that `select` after a
failed call has a continuation in which this fails. -/
theorem handsOutLive_of_nilNotSent {maxCap : Nat} {maxSize : Int}
    {succeeds : Nat → Bool} {s₀ : State}
    (hnew : newPool maxCap maxSize succeeds = .ok s₀) :
    (∀ run, IsRun DisciplinedStep s₀ run → StepsAll NilNotSent s₀ run →
      StatesAll HandsOutLive run) ∧
    ∀ s a t, Reaches DisciplinedStep s₀ s → DisciplinedStep s a t →
      ¬ NilNotSent s a →
      ∃ u, Reaches DisciplinedStep t u ∧ ¬ HandsOutLive u := by
  obtain ⟨-, rfl⟩ := eq_initial_of_newPool hnew
  constructor
  · intro run hrun hnil entry hentry
    exact (statesAll_of_stepsAll (fun _ _ _ h hC hstep => h.step hC hstep)
      hrun (liveInvariant_initial _) hnil entry hentry).handsOutLive
  · intro s a t hs hstep hnil
    exact hands_out_nil ((hs.tail hstep).invariant
      (fun _ _ _ h hstep => h.step hstep) (slotInvariant_initial _)) hstep
      hnil

/-- A connection is destroyed and replaced, and the new one handed out. -/
theorem handsOutLive_of_nilNotSent_replaced :
    ∃ run : List (Action × State), IsRun DisciplinedStep (State.initial 1)
        run ∧
      run.getLast?.map (fun entry => entry.2.calls[2]?) =
        some (some (.acquire false false (.acquired (some 1) true))) ∧
      StatesAll HandsOutLive run := by
  have hrun : IsRun (α := Action) DisciplinedStep (State.initial 1)
      [(_, _), (_, _), (_, _), (_, _), (_, _), (_, _), (_, _), (_, _),
        (_, _)] :=
    ⟨⟨.acquire _, trivial⟩,
      ⟨.move _ 0 _ _ _ rfl (.acquireIdle _ _ (some 0) [] rfl), trivial⟩,
      ⟨.giveBack _ .destroy 0 _ _ _ rfl, trivial⟩,
      ⟨.move _ 1 _ _ _ rfl (.destroyCloses _), trivial⟩,
      ⟨.move _ 1 _ _ _ rfl (.destroyMakes _), trivial⟩,
      ⟨.move _ 1 _ _ _ rfl (.destroyDefault _ _ rfl), trivial⟩,
      ⟨.move _ 1 _ _ _ rfl (.destroySends _ _ (by decide)), trivial⟩,
      ⟨.acquire _, trivial⟩,
      ⟨.move _ 2 _ _ _ rfl (.acquireIdle _ _ (some 1) [] rfl), trivial⟩,
      trivial⟩
  have hnew : newPool 1024 1 (fun _ => true) = .ok (State.initial 1) := rfl
  refine ⟨_, hrun, rfl, (handsOutLive_of_nilNotSent hnew).1 _ hrun ?_⟩
  refine ⟨trivial, fun conn hc => ?_, trivial, fun conn hc => ?_,
    fun conn hc => ?_, fun conn hc => ?_, fun conn hc => ?_, trivial,
    fun conn hc => ?_, trivial⟩
  all_goals cases Option.some.inj hc

/-- **`Acquire` may return nil with a nil error**, after a `Destroy` whose
factory call failed. -/
theorem acquire_returns_nil :
    ∃ s t : State, newPool 1024 1 (fun _ => true) = .ok s ∧
      Reaches DisciplinedStep s t ∧
      t.calls[2]? = some (.acquire false false (.acquired none true)) ∧
      ¬ HandsOutLive t := by
  have hbegun : DisciplinedStep (State.initial 1) .acquire _ :=
    ⟨.acquire _, trivial⟩
  have hacquired := (Reaches.single hbegun).tail
    ⟨.move _ 0 _ _ _ rfl (.acquireIdle _ _ (some 0) [] rfl), trivial⟩
  have hdestroyed := ((hacquired.tail
    ⟨.giveBack _ .destroy 0 _ _ _ rfl, trivial⟩).tail
    ⟨.move _ 1 _ _ _ rfl (.destroyCloses _), trivial⟩).tail
    ⟨.move _ 1 _ _ _ rfl (.destroyFails _), trivial⟩
  have hsent := (hdestroyed.tail
    ⟨.move _ 1 _ _ _ rfl (.destroyDefault _ _ rfl), trivial⟩).tail
    ⟨.move _ 1 _ _ _ rfl (.destroySends _ _ (by decide)), trivial⟩
  have hagain := (hsent.tail ⟨.acquire _, trivial⟩).tail
    ⟨.move _ 2 _ _ _ rfl (.acquireIdle _ _ none [] rfl), trivial⟩
  refine ⟨_, _, rfl, hagain, rfl, fun hlive => ?_⟩
  obtain ⟨n, hn, -⟩ := hlive.made_lt
    (.acquire false false (.acquired none true))
    (List.mem_of_getElem? (show _[2]? = some _ from rfl)) none rfl
  cases hn

end GoPrep.Ports.ConnectionPool
