import GoPrep.Ports.IteratorPlusIndexOrder

/-!
# The index is linearizable, with snapshot iterators

The map is the replay of the `Insert`s in their order, so the offsets that a
`Query` collects are those of the first entries above its bound at its own
place in that order.  The lines at these offsets never change, so whatever
happens later, the iterator reads exactly these records.

Texts are taken to contain no newline, and `pread` not to fail.

## Main results

* `IteratorReads.next`, `IteratorReads.readChunk` — every step of `Next`
  keeps the answers a prefix of the selected records.
* `SnapshotInvariant.step` — the invariant of all interleavings.
* `index_linearizable` — the order of the effects respects real time, and
  each iterator yields what its `Query` selects at its place in the order,
  from then on.
-/

namespace GoPrep.Ports.IteratorPlusIndex

open GoPrep.Ports.IndexRecord
open GoPrep.Verified.ByteFile
open GoPrep.Verified.RealTime
open GoPrep.Verified.SortedMap
open GoPrep.Verified.ThreadTable
open GoPrep.Verified.Transition

/-! ## Replaying the order -/

/-- An entry of the index, with the text at its offset. -/
abbrev Entry := UInt64 × (Nat × Bytes)

def Entry.record (e : Entry) : Record := ⟨e.1, e.2.2⟩

/-- The assignments to the map, with the texts they stand for. -/
def assignments (order : List (Nat × Effect)) : List Entry :=
  order.filterMap fun entry =>
    match entry.2 with
    | .inserted r offset => some (r.id, (offset, r.text))
    | .queried => none

/-- The ids and texts of the `Insert`s. -/
def insertions (order : List (Nat × Effect)) : List (UInt64 × Bytes) :=
  (assignments order).map (Prod.map id Prod.snd)

/-- What a `Query` selects after the calls in `order`. -/
def selected (order : List (Nat × Effect)) (minId : UInt64) (limit : Int) :
    List Entry :=
  ((ofLog (assignments order)).upperBound minId).take limit.toNat

@[simp] theorem assignments_append (order order' : List (Nat × Effect)) :
    assignments (order ++ order') = assignments order ++ assignments order' :=
  List.filterMap_append

theorem mem_assignments_of_mem_selected {order : List (Nat × Effect)}
    {minId : UInt64} {limit : Int} {e : Entry}
    (h : e ∈ selected order minId limit) : e ∈ assignments order :=
  mem_of_mem_ofLog (OrderedMap.mem_upperBound.mp (List.mem_of_mem_take h)).1

/-- **The records selected are the first ones above the bound, each with its
latest text.** -/
theorem selectsAbove_selected (order : List (Nat × Effect)) (minId : UInt64)
    (limit : Int) :
    SelectsAbove (latest (insertions order)) minId limit.toNat
      ((selected order minId limit).map (Prod.map id Prod.snd)) := by
  have hmap : (selected order minId limit).map (Prod.map id Prod.snd) =
      ((ofLog (insertions order)).upperBound minId).take limit.toNat := by
    rw [insertions, ofLog_map, OrderedMap.upperBound_mapValues, selected,
      List.map_take]
  rw [hmap]
  exact selectsAbove_take_upperBound (fun k v => mem_ofLog) minId limit.toNat

/-- What a `Query` collects from a map that replays the order. -/
theorem collect_eq {x : Index} {order : List (Nat × Effect)}
    (hmap : x.indexMap = (ofLog (assignments order)).mapValues Prod.fst)
    (minId : UInt64) (limit : Int) :
    x.collect minId limit =
      (selected order minId limit).map fun e => e.2.1 := by
  rw [Index.collect, Index.traverse_eq, hmap, OrderedMap.upperBound_mapValues,
    Int.sub_zero, ← List.map_take, List.map_map]
  rfl

/-! ## What an iterator yields -/

/-- The answers of the finished calls of `Next` are the first `records`, then
only ends of the stream; a call in progress is inside the next record. -/
def Yields (records : List Record) (iter : Iterator) : Prop :=
  ∃ n ended, iter.results =
      (records.take n).map .record ++ List.replicate ended .ended ∧
    iter.cursor = n + (if iter.reading.isSome then 1 else 0) ∧
    iter.cursor ≤ records.length ∧
    (ended ≠ 0 → iter.reading = none ∧
      (iter.closed = true ∨ n = records.length)) ∧
    ∀ reading, iter.reading = some reading →
      ∃ r, records[n]? = some r ∧ reading.buf <+: r.body

/-- Whatever count a `pread` returns, a call of `Next` in progress answers its
record or comes further into the line of that record. -/
def Proceeds (records : List Record) (file : Bytes) (iter : Iterator) :
    Prop :=
  ∀ reading, iter.reading = some reading →
    ∃ r, records[iter.cursor - 1]? = some r ∧ ∀ count, 0 < count →
      iter.readChunk reading (pread file reading.pos count) =
        iter.answer (.record r) ∨
      ∃ reading', reading'.buf <+: r.body ∧
        reading.buf.length < reading'.buf.length ∧
        iter.readChunk reading (pread file reading.pos count) =
          { iter with reading := some reading' }

/-- The iterator reads the records of `entries`. -/
structure IteratorReads (entries : List Entry) (iter : Iterator) : Prop where
  fileOffsets : iter.fileOffsets = entries.map fun e => e.2.1
  yields : Yields (entries.map Entry.record) iter
  reading : ∀ reading, iter.reading = some reading →
    iter.closed = false ∧
    ∃ e, entries[iter.cursor - 1]? = some e ∧
      Inside e.record e.2.1 reading

namespace IteratorReads

variable {entries : List Entry} {iter : Iterator}

theorem new (entries : List Entry) :
    IteratorReads entries (.new (entries.map fun e => e.2.1)) where
  fileOffsets := rfl
  yields := ⟨0, 0, rfl, rfl, Nat.zero_le _, fun h => absurd rfl h,
    fun reading h => by cases h⟩
  reading := fun reading h => by cases h

theorem length_eq (h : IteratorReads entries iter) :
    iter.fileOffsets.length = entries.length := by
  rw [h.fileOffsets, List.length_map]

/-- `Next` that finds the iterator closed or at its end. -/
theorem answer_ended (h : IteratorReads entries iter)
    (hreading : iter.reading = none)
    (hend : iter.closed = true ∨ iter.cursor = entries.length) :
    IteratorReads entries (iter.answer .ended) where
  fileOffsets := h.fileOffsets
  yields := by
    obtain ⟨n, ended, hresults, hcursor, hle, -, -⟩ := h.yields
    rw [hreading] at hcursor
    have hn : iter.cursor = n := by simpa using hcursor
    refine ⟨n, ended + 1, ?_, hcursor, hle, fun _ => ⟨rfl, ?_⟩,
      fun reading hsome => by cases hsome⟩
    · rw [Iterator.answer, hresults, List.append_assoc,
        List.replicate_succ']
    · rw [List.length_map, ← hn]
      exact hend
  reading := fun reading hsome => by cases hsome

/-- **A call of `Next` begins at the next record, or answers the end.** -/
theorem next (h : IteratorReads entries iter)
    (hreading : iter.reading = none) :
    IteratorReads entries iter.next := by
  unfold Iterator.next
  split
  next hclosed => exact h.answer_ended hreading (.inl hclosed)
  next hopen =>
    obtain ⟨n, ended, hresults, hcursor, hle, hended, -⟩ := h.yields
    rw [hreading] at hcursor
    have hn : iter.cursor = n := by simpa using hcursor
    rw [List.length_map] at hle hended
    have hclosed : iter.closed = false := by simpa using hopen
    split
    next hlast =>
      refine h.answer_ended hreading (.inr ?_)
      simp only [Iterator.hasNext, hclosed, h.length_eq] at hlast
      simp at hlast
      omega
    next hmore =>
      have hlt : n < entries.length := by
        simpa [Iterator.hasNext, hclosed, h.length_eq, hn] using hmore
      have hzero : ended = 0 := by
        by_contra hne
        rcases (hended hne).2 with hc | hlast
        · exact hopen hc
        · omega
      have he : entries[n]? = some entries[n] :=
        List.getElem?_eq_getElem hlt
      have hoffset : iter.fileOffsets.getD iter.cursor 0 =
          entries[n].2.1 := by
        rw [h.fileOffsets, hn, List.getD_eq_getElem?_getD,
          List.getElem?_map, he]
        rfl
      refine ⟨h.fileOffsets, ⟨n, ended, hresults, ?_, ?_, ?_, ?_⟩, ?_⟩
      · simp [hn]
      · simp only [List.length_map]
        omega
      · exact fun hne => absurd hzero hne
      · intro reading hsome
        obtain rfl := Option.some.inj hsome
        refine ⟨entries[n].record, ?_, List.nil_prefix⟩
        rw [List.getElem?_map, he]
        rfl
      · intro reading hsome
        obtain rfl := Option.some.inj hsome
        refine ⟨hclosed, entries[n], ?_, ?_⟩
        · simp [hn]
        · rw [hoffset]
          exact inside_start _ _

/-- **A chunk brings the call further into its record, or to its end.** -/
theorem readChunk (h : IteratorReads entries iter) {file : Bytes}
    (hlines : ∀ e ∈ entries, e.record.line <+: file.drop e.2.1 ∧
      newline ∉ e.2.2)
    {reading : Reading} (hreading : iter.reading = some reading) {count : Nat}
    (hcount : 0 < count) :
    IteratorReads entries
      (iter.readChunk reading (pread file reading.pos count)) := by
  obtain ⟨n, ended, hresults, hcursor, hle, hended, -⟩ := h.yields
  obtain ⟨hopen, e, he, hinside⟩ := h.reading reading hreading
  have hn : iter.cursor = n + 1 := by simpa [hreading] using hcursor
  have hzero : ended = 0 := by
    by_contra hne
    rw [(hended hne).1] at hreading
    cases hreading
  subst hzero
  have he' : entries[n]? = some e := by simpa [hn] using he
  have hrecord : (entries.map Entry.record)[n]? = some e.record := by
    rw [List.getElem?_map, he']
    rfl
  obtain ⟨hline, htext⟩ := hlines e (List.mem_of_getElem? he')
  rcases readChunk_spec hline htext hinside hcount iter with
    hanswer | ⟨reading', hinside', -, hgoes⟩
  · rw [hanswer]
    refine ⟨h.fileOffsets, ⟨n + 1, 0, ?_, hn, hle, fun hne => absurd rfl hne,
      fun _ hsome => by cases hsome⟩, fun _ hsome => by cases hsome⟩
    rw [Iterator.answer, hresults, List.take_add_one, hrecord]
    simp
  · rw [hgoes]
    refine ⟨h.fileOffsets, ⟨n, 0, hresults, hn, hle,
      fun hne => absurd rfl hne, ?_⟩, ?_⟩
    · intro other hsome
      obtain rfl := Option.some.inj hsome
      exact ⟨e.record, hrecord, hinside'.buf⟩
    · intro other hsome
      obtain rfl := Option.some.inj hsome
      exact ⟨hopen, e, he, hinside'⟩

theorem proceeds (h : IteratorReads entries iter) {file : Bytes}
    (hlines : ∀ e ∈ entries, e.record.line <+: file.drop e.2.1 ∧
      newline ∉ e.2.2) :
    Proceeds (entries.map Entry.record) file iter := by
  intro reading hreading
  obtain ⟨-, e, he, hinside⟩ := h.reading reading hreading
  obtain ⟨hline, htext⟩ := hlines e (List.mem_of_getElem? he)
  refine ⟨e.record, ?_, fun count hcount => ?_⟩
  · rw [List.getElem?_map, he]
    rfl
  rcases readChunk_spec hline htext hinside hcount iter with
    hanswer | ⟨reading', hinside', hlonger, hgoes⟩
  · exact .inl hanswer
  · exact .inr ⟨reading', hinside'.buf, hlonger, hgoes⟩

theorem close (h : IteratorReads entries iter)
    (hreading : iter.reading = none) :
    IteratorReads entries iter.close where
  fileOffsets := h.fileOffsets
  yields := by
    obtain ⟨n, ended, hresults, hcursor, hle, hended, hbuf⟩ := h.yields
    exact ⟨n, ended, hresults, hcursor, hle,
      fun _ => ⟨hreading, .inl rfl⟩, hbuf⟩
  reading := by
    intro reading hsome
    rw [Iterator.close, hreading] at hsome
    cases hsome

end IteratorReads

/-! ## The invariant -/

/-- `pread` does not fail and no text contains a newline. -/
def Action.Assumed : Action → Prop
  | .insert _ text => newline ∉ text
  | .preadFails _ => False
  | _ => True

def AssumedStep (s : State) (a : Action) (t : State) : Prop :=
  Step s a t ∧ a.Assumed

/-- What call `c` has read of the calls ordered before it. -/
def CallReads (order : List (Nat × Effect)) (c : Nat) : Call → Prop
  | .insert _ text _ => newline ∉ text
  | .query minId limit (.leave fileOffsets) =>
      ∃ before after, order = before ++ (c, .queried) :: after ∧
        fileOffsets = (selected before minId limit).map fun e => e.2.1
  | .query minId limit (.leaving fileOffsets) =>
      ∃ before after, order = before ++ (c, .queried) :: after ∧
        fileOffsets = (selected before minId limit).map fun e => e.2.1
  | .query minId limit (.returned true iter) =>
      ∃ before after, order = before ++ (c, .queried) :: after ∧
        IteratorReads (selected before minId limit) iter
  | .query _ _ (.returned false iter) => IteratorReads [] iter
  | _ => True

theorem CallReads.mono {order order' : List (Nat × Effect)} {c : Nat}
    {call : Call} (h : CallReads order c call) (hle : order <+: order') :
    CallReads order' c call := by
  obtain ⟨more, rfl⟩ := hle
  have hsplit : ∀ {P : List (Nat × Effect) → Prop},
      (∃ before after, order = before ++ (c, .queried) :: after ∧ P before) →
      ∃ before after, order ++ more = before ++ (c, .queried) :: after ∧
        P before := by
    rintro P ⟨before, after, rfl, hP⟩
    exact ⟨before, after ++ more, by simp, hP⟩
  match call with
  | .insert _ _ _ => exact h
  | .query _ _ (.leave _) => exact hsplit h
  | .query _ _ (.leaving _) => exact hsplit h
  | .query _ _ (.returned true _) => exact hsplit h
  | .query _ _ (.returned false _) => exact h
  | .query _ _ .enter | .query _ _ .entering | .query _ _ .traverse
  | .query _ _ .traversing => trivial
  | .close _ => trivial

theorem CallReads.wake {order : List (Nat × Effect)} {c : Nat} {call : Call}
    (h : CallReads order c call) : CallReads order c call.wake := by
  rwa [call.wake_eq (CallReads order c) rfl]

/-- The map replays the order over lines that are in the file. -/
structure Replays (x : Index) : Prop where
  indexMap :
    x.indexMap = (ofLog (assignments x.order)).mapValues Prod.fst
  starts : ∀ e ∈ assignments x.order,
    StartsAt x.records e.2.1 e.record ∧ newline ∉ e.2.2

/-- The lines a `Query` selected are still in the file. -/
theorem Replays.lines {x : Index} (hx : Replays x)
    (hfile : x.file.take x.writeOffset = encodeAll x.records)
    {before after : List (Nat × Effect)} {entry : Nat × Effect}
    (horder : x.order = before ++ entry :: after) {minId : UInt64}
    {limit : Int} :
    ∀ e ∈ selected before minId limit,
      e.record.line <+: x.file.drop e.2.1 ∧ newline ∉ e.2.2 := by
  intro e he
  have hmem : e ∈ assignments x.order := by
    rw [horder, assignments_append]
    exact List.mem_append_left _ (mem_assignments_of_mem_selected he)
  obtain ⟨hstart, htext⟩ := hx.starts e hmem
  exact ⟨hstart.line_at hfile, htext⟩

structure SnapshotInvariant (s : State) : Prop where
  log : LogInvariant s
  order : OrderInvariant s
  replays : Replays s.index
  calls : ∀ (c : Nat) call, s.calls[c]? = some call →
    CallReads s.index.order c call

theorem snapshotInvariant_initial : SnapshotInvariant .initial where
  log := logInvariant_initial
  order := orderInvariant_initial
  replays := ⟨rfl, by simp [State.initial, Index.initial, assignments]⟩
  calls := by simp [State.initial]

namespace Moves

variable {x y : Index} {c : Nat} {old new : Call} {notify : Bool}

theorem records_grow (h : Moves x c old new y notify) :
    x.records <+: y.records := by
  cases h with
  | appends id text =>
      refine ⟨[⟨id, text⟩], ?_⟩
      simp [Index.records, Index.append]
  | _ => exact List.prefix_rfl

/-- **The map keeps replaying the order.** -/
theorem replays (h : Moves x c old new y notify) (hx : Replays x)
    (hold : CallReads x.order c old)
    (hlanded : ∀ r offset, old.landed = some (r, offset) →
      StartsAt x.records offset r) : Replays y := by
  -- moves that assign nothing
  have hquiet : y.indexMap = x.indexMap →
      assignments y.order = assignments x.order → Replays y := by
    intro hmap hassign
    obtain ⟨more, hrecords⟩ := h.records_grow
    refine ⟨by rw [hmap, hassign, hx.indexMap], ?_⟩
    rw [hassign, ← hrecords]
    exact fun e he => ⟨(hx.starts e he).1.append more, (hx.starts e he).2⟩
  cases h with
  | updates id text offset =>
      have hassign : assignments (x.update c ⟨id, text⟩ offset).order =
          assignments x.order ++ [(id, (offset, text))] :=
        assignments_append _ _
      refine ⟨?_, ?_⟩
      · rw [hassign, ofLog_concat, OrderedMap.insert_mapValues,
          ← hx.indexMap]
        rfl
      · rw [hassign]
        intro e he
        rcases List.mem_append.mp he with he | he
        · exact hx.starts e he
        · obtain rfl := List.mem_singleton.mp he
          exact ⟨hlanded _ _ rfl, hold⟩
  | traverses minId limit =>
      apply hquiet rfl
      show assignments (x.order ++ [(c, .queried)]) = assignments x.order
      rw [assignments_append]
      exact List.append_nil _
  | _ => exact hquiet rfl rfl

/-- **What the call has read is what was ordered before it.** -/
theorem callReads (h : Moves x c old new y notify) (hx : Replays x)
    (hfile : x.file.take x.writeOffset = encodeAll x.records)
    (hold : CallReads x.order c old) : CallReads y.order c new := by
  cases h with
  | traverses minId limit =>
      exact ⟨x.order, [], rfl, collect_eq hx.indexMap minId limit⟩
  | queryLeft minId limit fileOffsets =>
      obtain ⟨before, after, horder, rfl⟩ := hold
      exact ⟨before, after, horder, .new _⟩
  | queryRejected minId limit _ => exact .new []
  | nexts minId limit admitted iter hreading =>
      cases admitted with
      | false => exact hold.next hreading
      | true =>
          obtain ⟨before, after, horder, hreads⟩ := hold
          exact ⟨before, after, horder, hreads.next hreading⟩
  | preads minId limit admitted iter reading n hreading hn _ =>
      cases admitted with
      | false => exact hold.readChunk (by simp) hreading hn
      | true =>
          obtain ⟨before, after, horder, hreads⟩ := hold
          exact ⟨before, after, horder,
            hreads.readChunk (hx.lines hfile horder) hreading hn⟩
  | closesIterator minId limit admitted iter hreading =>
      cases admitted with
      | false => exact hold.close hreading
      | true =>
          obtain ⟨before, after, horder, hreads⟩ := hold
          exact ⟨before, after, horder, hreads.close hreading⟩
  | queryEnters | queryAdmitted | queryLocksMap => trivial
  | closeLocks | closeReturns | closeWaits | closeRelocks
  | closeReturnsWoken | closeWaitsAgain => trivial
  | _ => exact hold

end Moves

namespace SnapshotInvariant

variable {s : State}

/-- **Every step under the assumptions preserves the invariant.** -/
theorem step (h : SnapshotInvariant s) {a : Action} {t : State}
    (hstep : AssumedStep s a t) : SnapshotInvariant t := by
  obtain ⟨hstep, hassumed⟩ := hstep
  refine ⟨h.log.step hstep, h.order.step hstep, ?_, ?_⟩
  · cases hstep with
    | move c old new x notify hc hmove _ =>
        exact hmove.replays h.replays (h.calls c old hc)
          (h.log.landed old (List.mem_of_getElem? hc))
    | _ => exact h.replays
  · have hbegin : ∀ call, CallReads s.index.order s.calls.length call →
        ∀ (c : Nat) other, (s.calls ++ [call])[c]? = some other →
          CallReads s.index.order c other := by
      intro call hcall c other hc
      rcases getElem?_concat_eq_some.mp hc with hc | ⟨rfl, rfl⟩
      · exact h.calls c other hc
      · exact hcall
    cases hstep with
    | insert id text => exact hbegin _ hassumed
    | query minId limit => exact hbegin _ trivial
    | close => exact hbegin _ trivial
    | wakeSpuriously c call hc =>
        intro d other hd
        rw [getElem?_set_eq hc] at hd
        split at hd
        next hcd =>
          obtain rfl := Option.some.inj hd
          exact hcd ▸ (h.calls c call hc).wake
        · exact h.calls d other hd
    | move c old new x notify hc hmove _ =>
        have hnew := hmove.callReads h.replays h.log.content
          (h.calls c old hc)
        have hset : ∀ (d : Nat) other,
            (s.calls.set c new)[d]? = some other →
            CallReads x.order d other := by
          intro d other hd
          rw [getElem?_set_eq hc] at hd
          split at hd
          next hcd =>
            obtain rfl := Option.some.inj hd
            exact hcd ▸ hnew
          · exact (h.calls d other hd).mono hmove.order_grows
        cases notify with
        | false => exact hset
        | true =>
            intro d other hd
            rw [if_pos rfl, List.getElem?_map, Option.map_eq_some_iff] at hd
            obtain ⟨call, hcall, rfl⟩ := hd
            exact (hset d call hcall).wake
    | preadFails c minId limit admitted iter hc _ => exact hassumed.elim

end SnapshotInvariant

/-! ## Linearizability -/

/-- The arguments of a `Query` that was admitted and has returned. -/
def Call.answered : Call → Option (UInt64 × Int)
  | .query minId limit (.returned true _) => some (minId, limit)
  | _ => none

theorem Call.answered_eq_some {call : Call} {minId : UInt64} {limit : Int} :
    call.answered = some (minId, limit) ↔
      ∃ iter, call = .query minId limit (.returned true iter) := by
  unfold Call.answered
  split
  · simp
  next hnot =>
    apply iff_of_false (by simp)
    rintro ⟨iter, rfl⟩
    exact hnot minId limit iter rfl

theorem Moves.answered {x y : Index} {c : Nat} {old new : Call}
    {notify : Bool} (h : Moves x c old new y notify) {q : UInt64 × Int}
    (hold : old.answered = some q) : new.answered = some q := by
  cases h with
  | nexts minId limit admitted iter _ => cases admitted <;> exact hold
  | preads minId limit admitted iter reading n _ _ _ =>
      cases admitted <;> exact hold
  | closesIterator minId limit admitted iter _ =>
      cases admitted <;> exact hold
  | _ => cases hold

theorem Step.answered {s t : State} {a : Action} (h : Step s a t) {c : Nat}
    {q : UInt64 × Int}
    (hc : (s.calls.map Call.answered)[c]? = some (some q)) :
    (t.calls.map Call.answered)[c]? = some (some q) := by
  refine h.persists Call.answered (fun call => ?_)
    (fun hmove hold => hmove.answered hold) (fun _ _ admitted _ => ?_) hc
  · exact call.wake_eq Call.answered rfl
  · cases admitted <;> rfl

/-- The calls before a given one in the order are determined by it. -/
theorem before_unique {order before before' after after' :
      List (Nat × Effect)} {entry : Nat × Effect}
    (hnodup : (order.map Prod.fst).Nodup)
    (h : order = before ++ entry :: after)
    (h' : order = before' ++ entry :: after') : before = before' := by
  have hfresh : entry ∉ before ++ after := by
    have hentries := hnodup.of_map
    rw [h] at hentries
    exact (List.nodup_cons.mp (List.nodup_middle.mp hentries)).1
  rw [List.mem_append, not_or] at hfresh
  rw [h] at h'
  exact ((List.append_cons_inj_of_notMem hfresh.1 hfresh.2).mp h').1

theorem order_grows_of_reaches {s t : State} (h : Reaches AssumedStep s t) :
    s.index.order <+: t.index.order := by
  refine h.related (R := fun s t => s.index.order <+: t.index.order)
    (fun _ => List.prefix_rfl) ?_ (fun hstep => hstep.1.order_grows)
  intro s t u hst htu
  exact hst.trans htu

/-- Call `c` is a `Query` ordered after `before`.  Its iterator yields what it
selects there, in this state and in every later one, and no call of `Next`
reads on for ever. -/
def YieldsFromNowOn (s : State) (c : Nat) (minId : UInt64) (limit : Int)
    (before : List (Nat × Effect)) : Prop :=
  ∃ records, SelectsAbove (latest (insertions before)) minId limit.toNat
      (records.map fun r => (r.id, r.text)) ∧
    ∀ t, Reaches AssumedStep s t → ∃ iter,
      t.calls[c]? = some (.query minId limit (.returned true iter)) ∧
      Yields records iter ∧ Proceeds records t.index.file iter

structure Linearizable (s : State) : Prop where
  /-- The order lists, once, every `Insert` that has updated the map and every
  admitted `Query` that has traversed it. -/
  effects : Records Call.effect s.calls s.index.order
  realTime : RespectsRealTime s.history (s.index.order.map Prod.fst)
  /-- The history has the invocation of every call and the response of every
  call that has returned, once. -/
  invoked : ∀ c, .invoke c ∈ s.history ↔ c < s.calls.length
  responded : ∀ c, .respond c ∈ s.history ↔
    (s.calls.map Call.hasReturned)[c]? = some true
  once : s.history.Nodup
  iterators : ∀ c minId limit iter,
    s.calls[c]? = some (.query minId limit (.returned true iter)) →
    ∃ before after, s.index.order = before ++ (c, .queried) :: after ∧
      YieldsFromNowOn s c minId limit before
  rejected : ∀ (c : Nat) minId limit iter,
    s.calls[c]? = some (.query minId limit (.returned false iter)) →
    Yields [] iter

namespace SnapshotInvariant

variable {s t : State}

theorem of_reaches (h : SnapshotInvariant s)
    (ht : Reaches AssumedStep s t) : SnapshotInvariant t :=
  ht.invariant (fun _ _ _ h hstep => h.step hstep) h

/-- A `Query` keeps its place in the order, and its iterator its records. -/
theorem yieldsFromNowOn (h : SnapshotInvariant s) {c : Nat} {minId : UInt64}
    {limit : Int} {iter : Iterator}
    (hc : s.calls[c]? = some (.query minId limit (.returned true iter)))
    {before after : List (Nat × Effect)}
    (horder : s.index.order = before ++ (c, .queried) :: after) :
    YieldsFromNowOn s c minId limit before := by
  refine ⟨(selected before minId limit).map Entry.record, ?_, ?_⟩
  · have hselects := selectsAbove_selected before minId limit
    rw [List.map_map]
    exact hselects
  intro t ht
  have hanswered : (t.calls.map Call.answered)[c]? =
      some (some (minId, limit)) := by
    apply ht.invariant (fun _ _ _ h hstep => hstep.1.answered h)
    rw [List.getElem?_map, hc]
    rfl
  rw [List.getElem?_map, Option.map_eq_some_iff] at hanswered
  obtain ⟨call, hcall, hanswered⟩ := hanswered
  obtain ⟨iter', rfl⟩ := Call.answered_eq_some.mp hanswered
  refine ⟨iter', hcall, ?_⟩
  have hlater := h.of_reaches ht
  obtain ⟨more, hmore⟩ := order_grows_of_reaches ht
  obtain ⟨before', after', horder', hreads⟩ := hlater.calls c _ hcall
  rw [horder, List.append_assoc, List.cons_append] at hmore
  rw [before_unique hlater.order.effects.nodup hmore.symm horder']
  exact ⟨hreads.yields,
    hreads.proceeds (hlater.replays.lines hlater.log.content horder')⟩

theorem linearizable (h : SnapshotInvariant s) : Linearizable s where
  effects := h.order.effects
  realTime := h.order.realTime
  invoked := h.order.invoked
  responded := h.order.responded
  once := h.order.nodup
  iterators := by
    intro c minId limit iter hc
    obtain ⟨before, after, horder, -⟩ := h.calls c _ hc
    exact ⟨before, after, horder, h.yieldsFromNowOn hc horder⟩
  rejected := fun c minId limit iter hc => (h.calls c _ hc).yields

end SnapshotInvariant

/-- **The index is linearizable, with snapshot iterators.**  In every state
reachable by any interleaving of `Insert`, `Query`, `Close` and iterator calls,
with texts free of newlines, any outcome of each `pwrite` and any
fragmentation of the reads: the calls that have taken effect stand in one
order that respects real time, and the iterator of each admitted `Query`
yields, now and for ever, the first `max(limit, 0)` ids above `minId` in
ascending order, each with the text of its latest `Insert` before that
`Query`; every read of a call of `Next` brings it closer to its record. -/
theorem index_linearizable {s : State}
    (hs : Reaches AssumedStep .initial s) : Linearizable s :=
  (snapshotInvariant_initial.of_reaches hs).linearizable

/-- An iterator taken between two `Insert`s of one id reads the first text
after the second has returned from its append. -/
theorem index_linearizable_snapshot :
    ∃ s iter, Reaches AssumedStep .initial s ∧ Linearizable s ∧
      s.index.log = [(0, ⟨5, [97]⟩), (2, ⟨5, [98]⟩)] ∧
      s.calls[1]? = some (.query 0 10 (.returned true iter)) ∧
      iter.results = [.record ⟨5, [97]⟩, .ended] := by
  have hbegun : AssumedStep .initial (.insert 5 [97]) _ :=
    ⟨.insert _ _ _, (by decide : newline ∉ [97])⟩
  have happended := ((((Reaches.single hbegun).tail
    ⟨.move _ 0 _ _ _ _ rfl (.insertEnters _ _) rfl, trivial⟩).tail
    ⟨.move _ 0 _ _ _ _ rfl (.insertAdmitted _ _ rfl) rfl, trivial⟩).tail
    ⟨.move _ 0 _ _ _ _ rfl (.insertLocksFile _ _) rfl, trivial⟩).tail
    ⟨.move _ 0 _ _ _ _ rfl (.appends _ _) rfl, trivial⟩
  have hupdated := (happended.tail
    ⟨.move _ 0 _ _ _ _ rfl (.insertLocksMap _ _ _) rfl, trivial⟩).tail
    ⟨.move _ 0 _ _ _ _ rfl (.updates _ _ _) rfl, trivial⟩
  have htraversed := ((((hupdated.tail ⟨.query _ 0 10, trivial⟩).tail
    ⟨.move _ 1 _ _ _ _ rfl (.queryEnters _ _) rfl, trivial⟩).tail
    ⟨.move _ 1 _ _ _ _ rfl (.queryAdmitted _ _ rfl) rfl, trivial⟩).tail
    ⟨.move _ 1 _ _ _ _ rfl (.queryLocksMap _ _) rfl, trivial⟩).tail
    ⟨.move _ 1 _ _ _ _ rfl (.traverses _ _) rfl, trivial⟩
  have hqueried := (htraversed.tail
    ⟨.move _ 1 _ _ _ _ rfl (.queryLeaves _ _ _) rfl, trivial⟩).tail
    ⟨.move _ 1 _ _ _ _ rfl (.queryLeft _ _ _) rfl, trivial⟩
  have hagain := ((((hqueried.tail
    ⟨.insert _ 5 [98], (by decide : newline ∉ [98])⟩).tail
    ⟨.move _ 2 _ _ _ _ rfl (.insertEnters _ _) rfl, trivial⟩).tail
    ⟨.move _ 2 _ _ _ _ rfl (.insertAdmitted _ _ rfl) rfl, trivial⟩).tail
    ⟨.move _ 2 _ _ _ _ rfl (.insertLocksFile _ _) rfl, trivial⟩).tail
    ⟨.move _ 2 _ _ _ _ rfl (.appends _ _) rfl, trivial⟩
  have hread := ((hagain.tail
    ⟨.move _ 1 _ _ _ _ rfl (.nexts _ _ _ _ rfl) rfl, trivial⟩).tail
    ⟨.move _ 1 _ _ _ _ rfl
      (.preads _ _ _ _ _ 256 rfl (by decide) (by decide)) rfl, trivial⟩).tail
    ⟨.move _ 1 _ _ _ _ rfl (.nexts _ _ _ _ rfl) rfl, trivial⟩
  exact ⟨_, _, hread, index_linearizable hread, rfl, rfl, rfl⟩

end GoPrep.Ports.IteratorPlusIndex
