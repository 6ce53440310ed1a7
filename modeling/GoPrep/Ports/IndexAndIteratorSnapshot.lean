import GoPrep.Ports.IndexAndIteratorCalls

/-!
# The tab-separated index is linearizable, with snapshot iterators

An `insert` takes its offset and writes its line under one lock, and publishes
the offset after the line is complete; the file only grows.  So the map is the
replay of the `insert`s in the order of their updates, with the offsets of
complete lines, and an iterator reads the lines its `query` selected however
far the file has grown.

Values are taken to contain no newline, and writes not to fail.

## Main results

* `Reads.next` — a call of `next` answers the next line, or the end.
* `Moves.calls` — what each call has in hand, move by move.
* `SnapshotInvariant.step` — the invariant of all interleavings.
* `tab_index_linearizable` — the order of the effects respects real time, and
  each iterator yields what its `query` selects at its place in the order,
  from then on.
-/

namespace GoPrep.Ports.IndexAndIterator

open GoPrep.Ports.IndexRecord (newline)
open GoPrep.Verified
open GoPrep.Verified.ByteFile
open GoPrep.Verified.Linearization
open GoPrep.Verified.RealTime
open GoPrep.Verified.SortedMap
open GoPrep.Verified.ThreadTable
open GoPrep.Verified.Transition

/-! ## Replaying the order -/

def Effect.entry : Effect → Option Entry
  | .inserted e => some e
  | .queried => none

/-- The entries put into the map, in this order. -/
def entries (order : List (Nat × Effect)) : List Entry :=
  order.filterMap fun entry => entry.2.entry

/-- The `insert`s that have taken effect, in this order. -/
def inserts (order : List (Nat × Effect)) : List (UInt64 × Bytes) :=
  (entries order).map (Prod.map id Prod.snd)

@[simp] theorem entries_append (order order' : List (Nat × Effect)) :
    entries (order ++ order') = entries order ++ entries order' :=
  List.filterMap_append

theorem LineAt.mono {table table' : Bytes} {e : Entry} (h : LineAt table e)
    (hgrows : table <+: table') : LineAt table' e := by
  obtain ⟨more, rfl⟩ := hgrows
  exact h.append more

/-! ## Reading -/

def ended : Except String Record := .error "No more elements in the iterator"

/-- The calls of `next` so far have answered the first `records`, then only
the end. -/
def Yields (records : List Record) (it : Iterator)
    (results : List (Except String Record)) : Prop :=
  ∃ ends, results =
      (records.take it.currentIndex).map .ok ++ List.replicate ends ended ∧
    it.currentIndex ≤ records.length ∧
    (ends ≠ 0 → it.currentIndex = records.length)

/-- The iterator goes through these entries of the table. -/
structure Reads (table : Bytes) (es : List Entry) (it : Iterator)
    (results : List (Except String Record)) : Prop where
  scans : Scans es it
  seen : it.inFile.file <+: table
  yields : Yields (es.map Entry.record) it results

namespace Reads

variable {table : Bytes} {es : List Entry} {it : Iterator}
  {results : List (Except String Record)}

theorem new {collectedOffsets : List Nat}
    (hoffsets : collectedOffsets = es.map fun e => e.2.1)
    (hlines : ∀ e ∈ es, LineAt table e) :
    Reads table es ⟨collectedOffsets, 0, .ofFile table⟩ [] where
  scans := ⟨hoffsets, hlines, rfl, rfl⟩
  seen := List.prefix_refl _
  yields := ⟨0, rfl, Nat.zero_le _, fun hne => absurd rfl hne⟩

theorem mono (h : Reads table es it results) {table' : Bytes}
    (hgrows : table <+: table') : Reads table' es it results :=
  { h with seen := h.seen.trans hgrows }

/-- A stream that sees more of the file. -/
theorem see (h : Reads table es it results) {seen : Bytes}
    (hmore : it.inFile.file <+: seen) (hseen : seen <+: table) :
    Reads table es (it.see seen) results where
  scans :=
    { offsets := h.scans.offsets
      lines := fun e he => (h.scans.lines e he).mono hmore
      isOpen := h.scans.isOpen
      good := h.scans.good }
  seen := hseen
  yields := h.yields

/-- `next` leaves the file alone. -/
theorem file_next {it' : Iterator} {r : Record} {uninit : UInt64}
    (hnext : it.next uninit = .ok (r, it')) :
    it'.inFile.file = it.inFile.file := by
  unfold Iterator.next at hnext
  split at hnext
  · cases hnext
  · dsimp only at hnext
    split at hnext
    · cases hnext
      simp
    · cases hnext
      simp

/-- **A call of `next` answers the next line, or the end.** -/
theorem next (h : Reads table es it results) (uninit : UInt64) :
    (∃ r it', it.next uninit = .ok (r, it') ∧
      Reads table es it' (results ++ [.ok r])) ∨
    it.next uninit = ended.map (fun r => (r, it)) ∧
      Reads table es it (results ++ [ended]) := by
  obtain ⟨ends, hresults, hle, hends⟩ := h.yields
  rw [List.length_map] at hle hends
  by_cases hlt : it.currentIndex < es.length
  · left
    have he : es[it.currentIndex]? = some es[it.currentIndex] :=
      List.getElem?_eq_getElem hlt
    obtain ⟨it', hnext, hscans, hindex⟩ := next_spec h.scans he uninit
    have hzero : ends = 0 := by
      by_contra hne
      exact absurd (hends hne) (Nat.ne_of_lt hlt)
    refine ⟨_, it', hnext, hscans, ?_, 0, ?_, ?_, fun hne => absurd rfl hne⟩
    · rw [file_next hnext]
      exact h.seen
    · rw [hresults, hzero, hindex, List.take_add_one, List.getElem?_map, he]
      simp
    · rw [List.length_map, hindex]
      exact hlt
  · right
    have hindex : it.currentIndex = es.length := by omega
    have hhas := h.scans.hasNext_eq_false (Nat.le_of_eq hindex.symm)
    refine ⟨?_, h.scans, h.seen, ends + 1, ?_, ?_, ?_⟩
    · simp [Iterator.next, hhas, ended, Except.map]
    · rw [hresults, List.append_assoc, List.replicate_succ']
    · rw [List.length_map]
      exact hle
    · rw [List.length_map]
      exact fun _ => hindex

end Reads

/-! ## What the calls have in hand -/

/-- The `query` stands in the order after the effects `before`. -/
def After (order : List (Nat × Effect)) (c : Nat)
    (before : List (Nat × Effect)) : Prop :=
  ∃ later, order = before ++ (c, .queried) :: later

/-- The offset of an `insert` is that of its line, and the offsets and the
iterator of a `query` are those of what it selects at its place. -/
def Call.Carries (table : Bytes) (order : List (Nat × Effect)) (c : Nat) :
    Call → Prop
  | .insert _ value .lockingFile => newline ∉ value
  | .insert _ value .telling => newline ∉ value
  | .insert _ value (.writing _ _) => newline ∉ value
  | .insert id value (.lockingMap currenOffset) =>
      LineAt table (id, currenOffset, value)
  | .insert id value (.updating currenOffset) =>
      LineAt table (id, currenOffset, value)
  | .query minId limit (.opening collectedOffsets) =>
      ∃ before, After order c before ∧
        collectedOffsets =
          (selected (entries before) minId limit).map fun e => e.2.1
  | .query minId limit (.returned (.ok it) results) =>
      ∃ before, After order c before ∧
        Reads table (selected (entries before) minId limit) it results
  | _ => True

theorem After.mono {order order' before : List (Nat × Effect)} {c : Nat}
    (h : After order c before) (hgrows : order <+: order') :
    After order' c before := by
  obtain ⟨later, rfl⟩ := h
  obtain ⟨more, rfl⟩ := hgrows
  exact ⟨later ++ more, by simp⟩

theorem Call.Carries.mono {table table' : Bytes}
    {order order' : List (Nat × Effect)} {c : Nat} {call : Call}
    (h : call.Carries table order c) (htable : table <+: table')
    (horder : order <+: order') : call.Carries table' order' c := by
  match call with
  | .insert _ _ .lockingFile | .insert _ _ .telling
  | .insert _ _ (.writing _ _) => exact h
  | .insert _ _ (.lockingMap _) | .insert _ _ (.updating _) =>
      exact LineAt.mono h htable
  | .query _ _ (.opening _) =>
      obtain ⟨before, hafter, hoffsets⟩ := h
      exact ⟨before, hafter.mono horder, hoffsets⟩
  | .query _ _ (.returned (.ok _) _) =>
      obtain ⟨before, hafter, hreads⟩ := h
      exact ⟨before, hafter.mono horder, hreads.mono htable⟩
  | .insert _ _ (.returned _) | .query _ _ .lockingMap
  | .query _ _ .traversing | .query _ _ (.returned (.error _) _) => trivial

/-- What is in the file of a line that is being written. -/
def Unfinished (table : Bytes) : Call → Prop
  | .insert id value (.writing currenOffset left) =>
      currenOffset ≤ table.length ∧
        table.drop currenOffset ++ left = Record.line ⟨id, value⟩
  | _ => True

theorem Written.mem_selected {x : Index} {order before : List (Nat × Effect)}
    {c : Nat} (h : Written x (entries order)) (hafter : After order c before)
    {minId : UInt64} {limit : Int32} {e : Entry}
    (he : e ∈ selected (entries before) minId limit) :
    LineAt x.table e := by
  obtain ⟨later, rfl⟩ := hafter
  have hupper := List.mem_of_mem_take he
  have hmem := mem_of_mem_ofLog (OrderedMap.mem_upperBound.mp hupper).1
  refine h.lines e ?_
  rw [entries_append]
  exact List.mem_append_left _ hmem

namespace Moves

variable {x y : Index} {old new : Call} {effect : Option Effect}
  {order : List (Nat × Effect)} {c : Nat}

/-- **The index replays the order.** -/
theorem written (h : Moves x old new y effect)
    (hwritten : Written x (entries order))
    (hold : old.Carries x.table order c) :
    Written y (entries (order ++ (effect.map fun e => (c, e)).toList)) := by
  cases h with
  | puts id value currenOffset piece left =>
      rw [Option.map_none, Option.toList_none, List.append_nil]
      exact ⟨hwritten.map, fun e he => (hwritten.lines e he).append piece⟩
  | updates id value currenOffset =>
      rw [entries_append]
      refine ⟨?_, fun e he => ?_⟩
      · show x.idToOffsetMap.insert id currenOffset = ofLog
          ((entries order ++ [(id, currenOffset, value)]).map _)
        rw [List.map_append, List.map_singleton, ofLog_concat,
          ← hwritten.map]
        rfl
      · rcases List.mem_append.mp he with he | he
        · exact hwritten.lines e he
        · obtain rfl := List.mem_singleton.mp he
          exact hold
  | traverses minId limit =>
      rw [entries_append]
      show Written x (entries order ++ [])
      rw [List.append_nil]
      exact hwritten
  | _ =>
      rw [Option.map_none, Option.toList_none, List.append_nil]
      exact hwritten

/-- **What a call has in hand**, move by move. -/
theorem calls (h : Moves x old new y effect)
    (hwritten : Written x (entries order))
    (hold : old.Carries x.table order c)
    (hline : Unfinished x.table old) :
    new.Carries y.table (order ++ (effect.map fun e => (c, e)).toList) c := by
  cases h with
  | flushes id value currenOffset =>
      obtain ⟨-, hdone⟩ := hline
      rw [List.append_nil] at hdone
      refine ⟨⟨[], ?_⟩, hold⟩
      show x.table.drop currenOffset = _
      rw [hdone]
      rfl
  | traverses minId limit =>
      have hquery : x.query minId limit true =
          .ok ⟨x.collect minId limit, 0, .ofFile x.table⟩ := rfl
      exact ⟨order, ⟨[], rfl⟩, (scans_query hwritten hquery).1.offsets⟩
  | opens minId limit collectedOffsets opened =>
      cases opened with
      | false => trivial
      | true =>
          obtain ⟨before, hafter, hoffsets⟩ := hold
          refine ⟨before, hafter.mono (List.prefix_append _ _), ?_⟩
          exact .new hoffsets fun e he => hwritten.mem_selected hafter he
  | nexts minId limit it results seen uninit hmore hseen =>
      obtain ⟨before, hafter, hreads⟩ := hold
      rw [Option.map_none, Option.toList_none, List.append_nil]
      unfold Call.afterNext
      rcases (hreads.see hmore hseen).next uninit with
        ⟨r, it', hnext, hreads'⟩ | ⟨hnext, hreads'⟩
      · rw [hnext]
        exact ⟨before, hafter, hreads'⟩
      · rw [hnext]
        exact ⟨before, hafter, hreads'⟩
  | _ => first | exact hold | trivial

/-- The writer's own line. -/
theorem unfinished (h : Moves x old new y effect)
    (hline : Unfinished x.table old) : Unfinished y.table new := by
  cases h with
  | tells id value =>
      refine ⟨Nat.le_refl _, ?_⟩
      rw [List.drop_length, List.nil_append]
  | puts id value currenOffset piece left =>
      obtain ⟨hle, hdone⟩ := hline
      refine ⟨?_, ?_⟩
      · rw [List.length_append]
        omega
      · rw [List.drop_append_of_le_length hle, List.append_assoc]
        exact hdone
  | nexts minId limit it results seen uninit _ _ =>
      obtain ⟨it', results', hafter⟩ :=
        Call.afterNext_eq minId limit (it.see seen) results uninit
      rw [hafter]
      trivial
  | _ => trivial

/-- Only who holds `fileMutex` writes. -/
theorem table_eq (h : Moves x old new y effect)
    (hholds : old.holdsFile = false) : y.table = x.table := by
  cases h with
  | puts => cases hholds
  | _ => rfl

end Moves

/-! ## The invariant -/

structure SnapshotInvariant (s : State) : Prop where
  linearizes : s.Linearizes
  holders_le : s.calls.countP Call.holdsFile ≤ 1
  written : Written s.index (entries s.order)
  calls : ∀ (c : Nat) call, s.calls[c]? = some call →
    call.Carries s.index.table s.order c
  unfinished : ∀ call ∈ s.calls, Unfinished s.index.table call

theorem snapshotInvariant_initial {file : Option Bytes} {x : Index}
    (hnew : Index.new file = .ok x) : SnapshotInvariant (.initial x) where
  linearizes := .nil _ _
  holders_le := Nat.zero_le _
  written := written_new hnew
  calls := fun c call hc => by cases hc
  unfinished := fun call hcall => by cases hcall

/-- A line that is being written is written under the lock. -/
theorem Unfinished.of_not_holds {table : Bytes} {call : Call}
    (h : call.holdsFile = false) : Unfinished table call := by
  match call with
  | .insert _ _ (.writing _ _) => cases h
  | .insert _ _ .lockingFile | .insert _ _ .telling
  | .insert _ _ (.lockingMap _) | .insert _ _ (.updating _)
  | .insert _ _ (.returned _) | .query _ _ _ => trivial

namespace SnapshotInvariant

variable {s t : State} {a : Action}

theorem begin (h : SnapshotInvariant s) {call : Call}
    (hlinearizes : (s.begin call).Linearizes)
    (hholds : call.holdsFile = false)
    (hcall : call.Carries s.index.table s.order s.calls.length) :
    SnapshotInvariant (s.begin call) where
  linearizes := hlinearizes
  holders_le := by
    show (s.calls ++ [call]).countP Call.holdsFile ≤ 1
    rw [List.countP_append, List.countP_singleton, hholds]
    exact h.holders_le
  written := h.written
  calls := by
    intro c other hc
    rcases getElem?_concat_eq_some.mp hc with hc | ⟨rfl, rfl⟩
    · exact h.calls c other hc
    · exact hcall
  unfinished := forall_mem_concat h.unfinished (.of_not_holds hholds)

/-- The lines being written, after a move: nobody else's has changed. -/
theorem unfinished_set (h : SnapshotInvariant s) {c : Nat} {old new : Call}
    {y : Index} {effect : Option Effect} (hc : s.calls[c]? = some old)
    (hmove : Moves s.index old new y effect) :
    ∀ call ∈ s.calls.set c new, Unfinished y.table call := by
  intro call hcall
  obtain ⟨d, hd⟩ := List.mem_iff_getElem?.mp hcall
  have hline := h.unfinished old (List.mem_of_getElem? hc)
  rw [getElem?_set_eq hc] at hd
  split at hd
  next =>
    obtain rfl := Option.some.inj hd
    exact hmove.unfinished hline
  next hne =>
    cases hholds : call.holdsFile with
    | false => exact .of_not_holds hholds
    | true =>
        have hold : old.holdsFile = false := by
          cases hboth : old.holdsFile with
          | false => rfl
          | true =>
              exact absurd
                (eq_of_countP_le_one h.holders_le hc hd hboth hholds) hne
        rw [hmove.table_eq hold]
        exact h.unfinished call (List.mem_of_getElem? hd)

/-- **Every step under the assumption preserves the invariant.** -/
theorem step (h : SnapshotInvariant s) (hstep : AssumedStep s a t) :
    SnapshotInvariant t := by
  obtain ⟨hstep, hassumed⟩ := hstep
  have hlinearizes := hstep.linearizes h.linearizes
  cases hstep with
  | insert id value => exact h.begin hlinearizes rfl hassumed
  | query minId limit => exact h.begin hlinearizes rfl trivial
  | move c old new index effect hc hmove hlock =>
      have hold := h.calls c old hc
      refine
        { linearizes := hlinearizes
          holders_le := Step.holders_le (.move s c old new index effect hc
            hmove hlock) h.holders_le
          written := hmove.written h.written hold
          calls := fun d other hd => ?_
          unfinished := h.unfinished_set hc hmove }
      rw [getElem?_set_eq hc] at hd
      split at hd
      next hcd =>
        obtain rfl := Option.some.inj hd
        exact hcd ▸ hmove.calls h.written hold
          (h.unfinished old (List.mem_of_getElem? hc))
      next =>
        exact (h.calls d other hd).mono hmove.table_grows
          (List.prefix_append _ _)

theorem of_reaches (h : SnapshotInvariant s)
    (ht : Reaches AssumedStep s t) : SnapshotInvariant t :=
  ht.invariant (fun _ _ _ h hstep => h.step hstep) h

end SnapshotInvariant

/-! ## Linearizability -/

/-- The arguments of a `query` that has returned an iterator. -/
def Call.answered : Call → Option (UInt64 × Int32)
  | .query minId limit (.returned (.ok _) _) => some (minId, limit)
  | _ => none

theorem Call.answered_eq_some {call : Call} {minId : UInt64}
    {limit : Int32} : call.answered = some (minId, limit) ↔
      ∃ it results, call = .query minId limit (.returned (.ok it) results) := by
  unfold Call.answered
  split
  · simp
  next hnot =>
    apply iff_of_false (by simp)
    rintro ⟨it, results, rfl⟩
    exact hnot minId limit it results rfl

theorem Step.answered {s t : State} {a : Action} (h : Step s a t) {c : Nat}
    {q : UInt64 × Int32}
    (hc : (s.calls.map Call.answered)[c]? = some (some q)) :
    (t.calls.map Call.answered)[c]? = some (some q) := by
  cases h with
  | insert | query =>
      show ((s.calls ++ [_]).map Call.answered)[c]? = _
      rw [List.map_append, List.map_singleton, getElem?_concat_eq_some]
      exact .inl hc
  | move d old new index effect hd hmove _ =>
      rw [List.getElem?_map, getElem?_set_eq hd]
      split
      next hdc =>
        subst hdc
        rw [List.getElem?_map, hd, Option.map_some] at hc
        cases hmove with
        | nexts minId limit it results seen uninit _ _ =>
            obtain ⟨it', results', hafter⟩ :=
              Call.afterNext_eq minId limit (it.see seen) results uninit
            rw [hafter]
            exact hc
        | _ => cases hc
      next =>
        rw [← List.getElem?_map]
        exact hc

theorem order_grows_of_reaches {s t : State} (h : Reaches AssumedStep s t) :
    s.order <+: t.order :=
  h.related (R := fun s t => s.order <+: t.order)
    (fun _ => List.prefix_rfl) List.IsPrefix.trans
    fun hstep => hstep.1.order_grows

/-- Call `c` is a `query` ordered after `before`.  Its iterator yields what it
selects there, in this state and in every later one. -/
def YieldsFromNowOn (s : State) (c : Nat) (minId : UInt64) (limit : Int32)
    (before : List (Nat × Effect)) : Prop :=
  ∃ records, SelectsAbove (latest (inserts before)) minId (toSizeT limit)
      (records.map fun r => (r.id, r.value)) ∧
    ∀ t, Reaches AssumedStep s t → ∃ it results,
      t.calls[c]? = some (.query minId limit (.returned (.ok it) results)) ∧
      Yields records it results ∧ it.inFile.good = true

structure Linearizable (s : State) : Prop where
  /-- The order lists, once, every `insert` that has updated the map and every
  `query` that has gone through it, and respects the history of all calls. -/
  linearizes : Linearizes Call.effect Call.hasReturned s.calls s.order
    s.history
  iterators : ∀ c minId limit it results,
    s.calls[c]? = some (.query minId limit (.returned (.ok it) results)) →
    ∃ before, After s.order c before ∧ YieldsFromNowOn s c minId limit before

/-- A `query` keeps its place in the order, and its iterator its records. -/
theorem SnapshotInvariant.yieldsFromNowOn {s : State}
    (h : SnapshotInvariant s) {c : Nat} {minId : UInt64} {limit : Int32}
    {it : Iterator} {results : List (Except String Record)}
    (hc : s.calls[c]? =
      some (.query minId limit (.returned (.ok it) results)))
    {before : List (Nat × Effect)} (hafter : After s.order c before) :
    YieldsFromNowOn s c minId limit before := by
  refine ⟨(selected (entries before) minId limit).map Entry.record,
    selectsAbove_selected (entries before) minId limit, fun t ht => ?_⟩
  have hanswered : (t.calls.map Call.answered)[c]? =
      some (some (minId, limit)) := by
    apply ht.invariant (fun _ _ _ h hstep => hstep.1.answered h)
    rw [List.getElem?_map, hc]
    rfl
  rw [List.getElem?_map, Option.map_eq_some_iff] at hanswered
  obtain ⟨call, hcall, hanswered⟩ := hanswered
  obtain ⟨it', results', rfl⟩ := Call.answered_eq_some.mp hanswered
  have hlater := h.of_reaches ht
  obtain ⟨before', hafter', hreads⟩ := hlater.calls c _ hcall
  -- the place of the `query` has not changed
  obtain ⟨rest, horder⟩ := hafter.mono (order_grows_of_reaches ht)
  obtain ⟨rest', horder'⟩ := hafter'
  rw [before_unique hlater.linearizes.effects.nodup horder horder']
  exact ⟨it', results', hcall, hreads.yields, hreads.scans.good⟩

/-- **The tab-separated index is linearizable, with snapshot iterators.**  In
every state reachable from a new index over any file by any interleaving of
`insert`s of values without a newline, `query`s and calls of `next`, whatever
pieces the lines are written in and however far a stream lags behind: the calls
that have taken effect stand in one order that respects real time, and the
iterator of each `query` yields, now and for ever, the first `limit` ids (cast
to `size_t`) above `minId` in ascending order, each with the value of its
latest `insert` before that `query`. -/
theorem tab_index_linearizable {file : Option Bytes} {x : Index}
    (hnew : Index.new file = .ok x) {s : State}
    (hs : Reaches AssumedStep (.initial x) s) : Linearizable s := by
  have hinv := (snapshotInvariant_initial hnew).of_reaches hs
  refine ⟨hinv.linearizes, fun c minId limit it results hc => ?_⟩
  obtain ⟨before, hafter, -⟩ := hinv.calls c _ hc
  exact ⟨before, hafter, hinv.yieldsFromNowOn hc hafter⟩

/-- An iterator reads its line while the next one is half written. -/
theorem tab_index_linearizable_one :
    ∃ s it, Reaches AssumedStep (.initial ⟨[], .empty⟩) s ∧ Linearizable s ∧
      s.index.table = [53, 9, 97, 10, 53] ∧
      s.calls[1]? = some (.query 0 10 (.returned (.ok it)
        [.ok ⟨5, [97]⟩])) := by
  have hbegun : AssumedStep (.initial ⟨[], .empty⟩) (.insert 5 [97]) _ :=
    ⟨.insert _ _ _, (by decide : newline ∉ [97])⟩
  have hwriting := ((Reaches.single hbegun).tail
    ⟨.move _ 0 _ _ _ _ rfl (.locksFile _ _) (.inr rfl), trivial⟩).tail
    ⟨.move _ 0 _ _ _ _ rfl (.tells _ _) (.inl rfl), trivial⟩
  have hwritten := (((hwriting.tail
    ⟨.move _ 0 _ _ _ _ rfl (.puts 5 [97] 0 [53, 9, 97, 10] [])
      (.inl rfl), trivial⟩).tail
    ⟨.move _ 0 _ _ _ _ rfl (.flushes _ _ _) (.inr rfl), trivial⟩).tail
    ⟨.move _ 0 _ _ _ _ rfl (.locksMap _ _ _) (.inr rfl), trivial⟩).tail
    ⟨.move _ 0 _ _ _ _ rfl (.updates _ _ _) (.inr rfl), trivial⟩
  have hqueried := ((((hwritten.tail ⟨.query _ 0 10, trivial⟩).tail
    ⟨.move _ 1 _ _ _ _ rfl (.sharesMap _ _) (.inr rfl), trivial⟩).tail
    ⟨.move _ 1 _ _ _ _ rfl (.traverses _ _) (.inr rfl), trivial⟩).tail
    ⟨.move _ 1 _ _ _ _ rfl (.opens _ _ _ true) (.inr rfl), trivial⟩)
  have hagain := ((((hqueried.tail
    ⟨.insert _ 5 [98], (by decide : newline ∉ [98])⟩).tail
    ⟨.move _ 2 _ _ _ _ rfl (.locksFile _ _) (.inr rfl), trivial⟩).tail
    ⟨.move _ 2 _ _ _ _ rfl (.tells _ _) (.inl rfl), trivial⟩).tail
    ⟨.move _ 2 _ _ _ _ rfl (.puts 5 [98] 4 [53] [9, 98, 10])
      (.inl rfl), trivial⟩)
  have hread := hagain.tail
    ⟨.move _ 1 _ _ _ _ rfl (.nexts _ _ _ _ [53, 9, 97, 10, 53] 0
      ⟨[53], rfl⟩ (List.prefix_refl _)) (.inl rfl), trivial⟩
  have hnew : Index.new (some []) = .ok ⟨[], .empty⟩ := rfl
  exact ⟨_, _, hread, tab_index_linearizable hnew hread, rfl, rfl⟩

end GoPrep.Ports.IndexAndIterator
