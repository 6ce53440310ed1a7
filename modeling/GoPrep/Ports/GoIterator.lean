import GoPrep.Ports.GoIndexLog
import GoPrep.Ports.IndexRecord
import GoPrep.Verified.SnapshotCursor

/-!
# The Go iterator and its migration

A port of `iteratorImpl` in `src/go-concurrency-practice/
final_iterator_plus_index/library.go`, beside the C++ `iteratorImpl` that
replaces it.  Both hold the offsets of a `Query`, move on before they read, and
stop at the end or once closed.  What a read answers is free on either side:
in Go `open` and `readAt`, which the source leaves out, in C++ every `pread`.

## Main results

* `goCall_refines`, `cppCall_refines` — both are cursors over their offsets.
* `iterators_agree` — whatever the reads answer, the two iterators answer the
  same calls alike and read at the same offsets, each once and in order.
* `scan_reads_records` — if `readAt` answers with the record that landed at the
  offset, the iterator of a `Query` goes through complete records above the
  bound in ascending order, then answers that there are no more.
-/

namespace GoPrep.Ports.GoIndex

open GoPrep.Verified.ByteFile
open GoPrep.Verified.SnapshotCursor
open GoPrep.Verified.Transition

/-! ## The Go iterator -/

structure IteratorImpl where
  fileOffsets : List Nat
  lastReadIndex : Nat
  isClosed : Bool
  deriving DecidableEq, Repr

namespace IteratorImpl

/-- `newIteratorImpl`, with the offsets that `Query` puts in. -/
def newIteratorImpl (fileOffsets : List Nat) : IteratorImpl :=
  { fileOffsets := fileOffsets, lastReadIndex := 0, isClosed := false }

def hasNext (i : IteratorImpl) : Bool :=
  if i.isClosed then false else decide (i.lastReadIndex < i.fileOffsets.length)

/-- `Next` up to its call of `open`: the offset to read, or its error. -/
def advance (i : IteratorImpl) : IteratorImpl × Except String Nat :=
  if i.isClosed then (i, .error "iterator is closed")
  else if !i.hasNext then (i, .error "no more records")
  else
    ({ i with lastReadIndex := i.lastReadIndex + 1 },
      .ok (i.fileOffsets.getD i.lastReadIndex 0))

/-- `Next` from its call of `open` on. -/
def fetch (opened : Bool) (readAt : Nat → Option Record) (offset : Nat) :
    Except String Record :=
  if !opened then .error "error opening the file"
  else match readAt offset with
    | none => .error "error reading from the file"
    | some r => .ok r

def next (i : IteratorImpl) (opened : Bool) (readAt : Nat → Option Record) :
    IteratorImpl × Except String Record :=
  match i.advance with
  | (i', .error what) => (i', .error what)
  | (i', .ok offset) => (i', fetch opened readAt offset)

def close (i : IteratorImpl) : IteratorImpl := { i with isClosed := true }

end IteratorImpl

/-- A call of the Go iterator.  `Next` answers with the offset it reads at,
whether or not the read succeeds. -/
inductive GoCall : Calls IteratorImpl Nat
  | hasNext (i : IteratorImpl) : GoCall i .hasNext (.flag i.hasNext) i
  | ended (i i' : IteratorImpl) (what : String) (opened : Bool)
      (readAt : Nat → Option Record) : i.advance = (i', .error what) →
      GoCall i .next .ended (i.next opened readAt).1
  | reads (i i' : IteratorImpl) (offset : Nat) (opened : Bool)
      (readAt : Nat → Option Record) : i.advance = (i', .ok offset) →
      GoCall i .next (.item offset) (i.next opened readAt).1
  | close (i : IteratorImpl) : GoCall i .close .closed i.close

/-- The iterator stands for the cursor. -/
structure GoStands (i : IteratorImpl) (c : Cursor Nat) : Prop where
  items_eq : c.items = i.fileOffsets
  position_eq : c.position = i.lastReadIndex
  closed_eq : c.closed = i.isClosed

namespace GoStands

variable {i : IteratorImpl} {c : Cursor Nat}

theorem hasNext_eq (h : GoStands i c) : c.hasNext = i.hasNext := by
  rw [Cursor.hasNext, IteratorImpl.hasNext, h.items_eq, h.position_eq,
    h.closed_eq]
  cases i.isClosed <;> rfl

/-- `Next` reads at the cursor's item. -/
theorem current_of_ok (h : GoStands i c) {i' : IteratorImpl} {offset : Nat}
    (hadvance : i.advance = (i', .ok offset)) :
    c.current = some offset ∧
      i' = { i with lastReadIndex := i.lastReadIndex + 1 } := by
  unfold IteratorImpl.advance at hadvance
  split at hadvance
  · cases hadvance
  next hopen =>
    split at hadvance
    · cases hadvance
    next hmore =>
      have hopen' : i.isClosed = false := by simpa using hopen
      have hlt : i.lastReadIndex < i.fileOffsets.length := by
        simpa [IteratorImpl.hasNext, hopen'] using hmore
      obtain ⟨rfl, hoffset⟩ := Prod.mk.inj hadvance
      have hitem : i.fileOffsets[i.lastReadIndex]? = some offset := by
        rw [← Except.ok.inj hoffset, List.getD_eq_getElem?_getD,
          List.getElem?_eq_getElem hlt, Option.getD_some]
      refine ⟨?_, rfl⟩
      rw [Cursor.current, h.closed_eq, hopen', h.items_eq, h.position_eq,
        if_neg Bool.false_ne_true, hitem]

theorem current_of_error (h : GoStands i c) {i' : IteratorImpl}
    {what : String} (hadvance : i.advance = (i', .error what)) :
    c.current = none ∧ i' = i := by
  have hnone : i.hasNext = false ∧ i' = i := by
    unfold IteratorImpl.advance at hadvance
    split at hadvance
    next hclosed =>
      refine ⟨?_, (Prod.mk.inj hadvance).1.symm⟩
      rw [IteratorImpl.hasNext, if_pos hclosed]
    split at hadvance
    next hmore =>
      exact ⟨by simpa using hmore, (Prod.mk.inj hadvance).1.symm⟩
    · cases hadvance
  refine ⟨?_, hnone.2⟩
  have hsome := h.hasNext_eq
  rw [Cursor.hasNext_eq, hnone.1] at hsome
  exact Option.isSome_eq_false_iff.mp hsome |> Option.isNone_iff_eq_none.mp

end GoStands

theorem IteratorImpl.next_fst {i i' : IteratorImpl}
    {result : Except String Nat} (hadvance : i.advance = (i', result))
    (opened : Bool) (readAt : Nat → Option Record) :
    (i.next opened readAt).1 = i' := by
  rw [IteratorImpl.next, hadvance]
  cases result <;> rfl

/-- **The Go iterator is a cursor**, whatever its reads answer. -/
theorem goCall_refines : Refines GoCall GoStands := by
  intro i c op answer i' hstands hcall
  cases hcall with
  | hasNext => exact ⟨congrArg Answer.flag hstands.hasNext_eq, hstands⟩
  | ended _ i' what opened readAt hadvance =>
      obtain ⟨hnone, rfl⟩ := hstands.current_of_error hadvance
      rw [IteratorImpl.next_fst hadvance, Cursor.step, hnone]
      exact ⟨rfl, hstands⟩
  | reads _ i' offset opened readAt hadvance =>
      obtain ⟨hsome, rfl⟩ := hstands.current_of_ok hadvance
      rw [IteratorImpl.next_fst hadvance, Cursor.step, hsome]
      exact ⟨rfl, hstands.items_eq, congrArg (· + 1) hstands.position_eq,
        hstands.closed_eq⟩
  | close => exact ⟨rfl, hstands.items_eq, hstands.position_eq, rfl⟩

/-! ## The C++ iterator -/

/-- A round of the loop in `readRecordAt`, whatever its `pread` answers. -/
inductive CppReads : IndexRecord.Iterator → IndexRecord.Iterator → Prop
  | done (it : IndexRecord.Iterator) : it.reading = none → CppReads it it
  | chunk (it it' : IndexRecord.Iterator) (reading : IndexRecord.Reading)
      (bytes : Bytes) : it.reading = some reading →
      CppReads (it.readChunk reading bytes) it' → CppReads it it'
  | fails (it : IndexRecord.Iterator) (reading : IndexRecord.Reading) :
      it.reading = some reading → CppReads it (it.answer .failed)

/-- A call of the C++ iterator, `Next` with all its rounds. -/
inductive CppCall : Calls IndexRecord.Iterator Nat
  | hasNext (it : IndexRecord.Iterator) :
      CppCall it .hasNext (.flag it.hasNext) it
  | ended (it : IndexRecord.Iterator) : it.next.reading = none →
      CppCall it .next .ended it.next
  | reads (it it' : IndexRecord.Iterator) (reading : IndexRecord.Reading) :
      it.next.reading = some reading → CppReads it.next it' →
      CppCall it .next (.item reading.pos) it'
  | close (it : IndexRecord.Iterator) : CppCall it .close .closed it.close

/-- The iterator, between two calls, stands for the cursor. -/
structure CppStands (it : IndexRecord.Iterator) (c : Cursor Nat) : Prop where
  items_eq : c.items = it.fileOffsets
  position_eq : c.position = it.cursor
  closed_eq : c.closed = it.closed
  idle : it.reading = none

/-- Reading moves neither the offsets nor the cursor. -/
theorem CppReads.fixed {it it' : IndexRecord.Iterator}
    (h : CppReads it it') : it'.fileOffsets = it.fileOffsets ∧
      it'.cursor = it.cursor ∧ it'.closed = it.closed ∧
      it'.reading = none := by
  induction h with
  | done it hidle => exact ⟨rfl, rfl, rfl, hidle⟩
  | fails it reading _ => exact ⟨rfl, rfl, rfl, rfl⟩
  | chunk it it' reading bytes _ _ ih =>
      have hchunk : (it.readChunk reading bytes).cursor = it.cursor ∧
          (it.readChunk reading bytes).closed = it.closed := by
        unfold IndexRecord.Iterator.readChunk
        split
        · exact ⟨rfl, rfl⟩
        · dsimp only
          split <;> exact ⟨rfl, rfl⟩
      rw [IndexRecord.Iterator.fileOffsets_readChunk, hchunk.1,
        hchunk.2] at ih
      exact ih

/-- `Next` without more to read answers and moves nothing. -/
theorem cppNext_of_ended {it : IndexRecord.Iterator}
    (hmore : it.hasNext = false) : it.next = it.answer .ended := by
  unfold IndexRecord.Iterator.next
  split
  · rfl
  · rw [hmore, Bool.not_false, if_pos rfl]

namespace CppStands

variable {it : IndexRecord.Iterator} {c : Cursor Nat}

theorem hasNext_eq (h : CppStands it c) : c.hasNext = it.hasNext := by
  rw [Cursor.hasNext, IndexRecord.Iterator.hasNext, h.items_eq,
    h.position_eq, h.closed_eq]
  cases it.closed <;> rfl

theorem next_of_more (h : CppStands it c) (hmore : it.hasNext = true) :
    ∃ offset, c.current = some offset ∧
      it.next = { it with
        cursor := it.cursor + 1
        reading := some ⟨[], offset⟩ } := by
  have hopen : it.closed = false := by
    cases hclosed : it.closed with
    | false => rfl
    | true =>
        rw [IndexRecord.Iterator.hasNext, hclosed, if_pos rfl] at hmore
        cases hmore
  have hlt : it.cursor < it.fileOffsets.length := by
    rw [IndexRecord.Iterator.hasNext, hopen,
      if_neg Bool.false_ne_true] at hmore
    exact of_decide_eq_true hmore
  refine ⟨it.fileOffsets.getD it.cursor 0, ?_, ?_⟩
  · rw [Cursor.current, h.closed_eq, hopen, h.items_eq, h.position_eq,
      if_neg Bool.false_ne_true, List.getD_eq_getElem?_getD,
      List.getElem?_eq_getElem hlt, Option.getD_some]
  · rw [IndexRecord.Iterator.next, hopen, hmore,
      if_neg Bool.false_ne_true, if_neg (by decide)]

end CppStands

/-- **The C++ iterator is a cursor**, whatever its reads answer. -/
theorem cppCall_refines : Refines CppCall CppStands := by
  intro it c op answer it' hstands hcall
  have hsome := hstands.hasNext_eq
  rw [Cursor.hasNext_eq] at hsome
  cases hcall with
  | hasNext => exact ⟨congrArg Answer.flag hstands.hasNext_eq, hstands⟩
  | ended _ hidle =>
      cases hmore : it.hasNext with
      | true =>
          obtain ⟨offset, -, hnext⟩ := hstands.next_of_more hmore
          rw [hnext] at hidle
          cases hidle
      | false =>
          have hnone : c.current = none := by
            rw [hmore] at hsome
            exact Option.not_isSome_iff_eq_none.mp (by simp [hsome])
          rw [Cursor.step, hnone, cppNext_of_ended hmore]
          exact ⟨rfl, hstands.items_eq, hstands.position_eq,
            hstands.closed_eq, rfl⟩
  | reads _ it' reading hreading hreads =>
      cases hmore : it.hasNext with
      | false =>
          rw [cppNext_of_ended hmore] at hreading
          cases hreading
      | true =>
          obtain ⟨offset, hcurrent, hnext⟩ := hstands.next_of_more hmore
          obtain ⟨hoffsets, hcursor, hclosed, hidle⟩ := hreads.fixed
          rw [hnext] at hreading hoffsets hcursor hclosed
          cases hreading
          rw [Cursor.step, hcurrent]
          exact ⟨rfl, hstands.items_eq.trans hoffsets.symm,
            (congrArg (· + 1) hstands.position_eq).trans hcursor.symm,
            hstands.closed_eq.trans hclosed.symm, hidle⟩
  | close =>
      exact ⟨rfl, hstands.items_eq, hstands.position_eq, rfl, hstands.idle⟩

/-! ## The migration -/

/-- **The migrated iterator answers as the Go one does.**  For every snapshot
of offsets, every sequence of calls and whatever the reads on either side
answer: the same `HasNext` flags, the same ends, reads at the same offsets;
and these are the offsets of the snapshot in order, one for each `Next` before
the first `Close`. -/
theorem iterators_agree (fileOffsets : List Nat) (ops : List Op)
    {go cpp : List (Answer Nat)}
    (hgo : Runs GoCall (IteratorImpl.newIteratorImpl fileOffsets) ops go)
    (hcpp : Runs CppCall (IndexRecord.Iterator.new fileOffsets) ops cpp) :
    cpp = go ∧ go.filterMap Answer.item? =
      fileOffsets.take (nextsBeforeClose ops) := by
  have hgo' := goCall_refines.run_eq (c := Cursor.start fileOffsets)
    ⟨rfl, rfl, rfl⟩ hgo
  have hcpp' := cppCall_refines.run_eq (c := Cursor.start fileOffsets)
    ⟨rfl, rfl, rfl, rfl⟩ hcpp
  refine ⟨hcpp'.trans hgo'.symm, ?_⟩
  rw [hgo', items_run (Cursor.start fileOffsets) rfl]
  rfl

/-- Two calls of `Next`, the first read failing in Go, then `Close`. -/
theorem iterators_agree_two :
    ∃ go cpp, Runs GoCall (IteratorImpl.newIteratorImpl [4, 9])
        [.next, .next, .close, .next] go ∧
      Runs CppCall (IndexRecord.Iterator.new [4, 9])
        [.next, .next, .close, .next] cpp ∧
      cpp = go ∧ go.filterMap Answer.item? = [4, 9] := by
  have hgo : Runs GoCall (IteratorImpl.newIteratorImpl [4, 9])
      [.next, .next, .close, .next] _ :=
    .cons (.reads _ _ 4 false (fun _ => none) rfl)
      (.cons (.reads _ _ 9 true (fun _ => none) rfl)
        (.cons (.close _)
          (.cons (.ended _ _ _ true (fun _ => none) rfl) (.nil _))))
  have hcpp : Runs CppCall (IndexRecord.Iterator.new [4, 9])
      [.next, .next, .close, .next] _ :=
    .cons (.reads _ _ ⟨[], 4⟩ rfl (.fails _ _ rfl))
      (.cons (.reads _ _ ⟨[], 9⟩ rfl
          (.chunk _ _ _ [53, 32, 97, 10] rfl (.done _ (by decide))))
        (.cons (.close _) (.cons (.ended _ (by decide)) (.nil _))))
  exact ⟨_, _, hgo, hcpp, iterators_agree [4, 9] _ hgo hcpp⟩

/-! ## A whole scan -/

/-- The results of `n` calls of `Next`, each of which can open the file. -/
def IteratorImpl.scan (readAt : Nat → Option Record) :
    Nat → IteratorImpl → List (Except String Record)
  | 0, _ => []
  | n + 1, i =>
      (i.next true readAt).2 :: (i.next true readAt).1.scan readAt n

theorem IteratorImpl.scan_eq (readAt : Nat → Option Record) (n : Nat)
    (i : IteratorImpl) (hopen : i.isClosed = false) :
    i.scan readAt n =
      ((i.fileOffsets.drop i.lastReadIndex).take n).map (fetch true readAt) ++
        List.replicate (n - (i.fileOffsets.length - i.lastReadIndex))
          (.error "no more records") := by
  induction n generalizing i with
  | zero => simp [scan]
  | succ n ih =>
      by_cases hlt : i.lastReadIndex < i.fileOffsets.length
      · have hadvance : i.advance =
            ({ i with lastReadIndex := i.lastReadIndex + 1 },
              .ok i.fileOffsets[i.lastReadIndex]) := by
          rw [advance, hasNext, hopen, if_neg Bool.false_ne_true,
            if_neg Bool.false_ne_true, decide_eq_true hlt,
            if_neg (by decide), List.getD_eq_getElem?_getD,
            List.getElem?_eq_getElem hlt, Option.getD_some]
        have hrest := ih { i with lastReadIndex := i.lastReadIndex + 1 } hopen
        have hcount : n + 1 - (i.fileOffsets.length - i.lastReadIndex) =
            n - (i.fileOffsets.length - (i.lastReadIndex + 1)) := by omega
        rw [scan, next, hadvance, List.drop_eq_getElem_cons hlt,
          List.take_succ_cons, List.map_cons, hcount, List.cons_append]
        exact congrArg _ hrest
      · have hadvance : i.advance = (i, .error "no more records") := by
          rw [advance, hasNext, hopen, if_neg Bool.false_ne_true,
            if_neg Bool.false_ne_true, decide_eq_false hlt,
            if_pos (by decide)]
        have hnil : i.fileOffsets.drop i.lastReadIndex = [] :=
          List.drop_eq_nil_of_le (by omega)
        have hzero : i.fileOffsets.length - i.lastReadIndex = 0 := by omega
        have hrest := ih i hopen
        rw [hnil, hzero, List.take_nil, List.map_nil, List.nil_append,
          Nat.sub_zero] at hrest ⊢
        rw [scan, next, hadvance, List.replicate_succ]
        exact congrArg _ hrest

/-- `readAt` answers with the record that `writeData` placed at the
offset. -/
def ReadsBack (landing : List Record → Nat) (file : List Record)
    (readAt : Nat → Option Record) : Prop :=
  ∀ before r after, file = before ++ r :: after →
    readAt (landing before) = some r

/-- What landed can be read back, one record for each entry. -/
theorem exists_records {landing : List Record → Nat} {file : List Record}
    {readAt : Nat → Option Record} (hread : ReadsBack landing file readAt)
    {found : List (UInt64 × Nat)}
    (hlanded : ∀ e ∈ found, Landed landing file e) :
    ∃ records : List Record,
      (found.map Prod.snd).map (IteratorImpl.fetch true readAt) =
        records.map .ok ∧
      records.map Record.id = found.map Prod.fst ∧
      ∀ r ∈ records, r ∈ file := by
  induction found with
  | nil => exact ⟨[], rfl, rfl, by simp⟩
  | cons e found ih =>
      obtain ⟨records, hfetch, hids, hmem⟩ :=
        ih fun e' he' => hlanded e' (List.mem_cons_of_mem _ he')
      obtain ⟨before, r, after, hfile, hid, hoffset⟩ :=
        hlanded e List.mem_cons_self
      refine ⟨r :: records, ?_, ?_, ?_⟩
      · rw [List.map_cons, List.map_cons, List.map_cons, hfetch,
          IteratorImpl.fetch, hoffset, hread before r after hfile]
        rfl
      · rw [List.map_cons, List.map_cons, hid, hids]
      · intro r' hr'
        rcases List.mem_cons.mp hr' with rfl | hr'
        · rw [hfile]
          simp
        · exact hmem r' hr'

/-- **A scan reads complete records above the bound.**  The iterator of any
`Query` that has returned, used in any later state, whatever was inserted in
between. -/
theorem scan_reads_records (landing : List Record → Nat) {s t : State}
    (hs : Reaches (Step landing) .initial s)
    (ht : Reaches (Step landing) s t) {readAt : Nat → Option Record}
    (hread : ReadsBack landing t.index.file readAt) {minId : UInt64}
    {limit : Int} {fileOffsets : List Nat}
    (hquery : .query minId limit (.returned fileOffsets) ∈ s.calls) :
    ∃ records : List Record, records.length = fileOffsets.length ∧
      (records.length : Int) ≤ max limit 1 ∧
      (records.map Record.id).Pairwise (· < ·) ∧
      (∀ r ∈ records, r ∈ t.index.file ∧ minId < r.id) ∧
      ∀ n, (IteratorImpl.newIteratorImpl fileOffsets).scan readAt n =
        (records.map .ok).take n ++
          List.replicate (n - records.length) (.error "no more records") := by
  have hcarried : LogInvariant landing s :=
    hs.invariant (fun _ _ _ h hstep => h.step hstep) logInvariant_initial
  obtain ⟨found, rfl, hpoints⟩ := hcarried.carried _ hquery
  obtain ⟨more, hfile⟩ := file_prefix_of_reaches ht
  rw [← hfile] at hread
  have hlater := hpoints.append more
  obtain ⟨records, hfetch, hids, hmem⟩ :=
    exists_records hread hlater.landed
  have hlength : records.length = (found.map Prod.snd).length := by
    have hcount := congrArg List.length hids
    simpa using hcount
  refine ⟨records, hlength, ?_, ?_, ?_, fun n => ?_⟩
  · rw [hlength, List.length_map]
    exact hlater.length_le
  · rw [hids, List.pairwise_map]
    exact hlater.ascending
  · intro r hr
    refine ⟨hfile ▸ hmem r hr, ?_⟩
    have hid : r.id ∈ found.map Prod.fst := by
      rw [← hids]
      exact List.mem_map_of_mem hr
    obtain ⟨e, he, hsame⟩ := List.mem_map.mp hid
    rw [← hsame]
    exact hlater.above e he
  · have hscan := IteratorImpl.scan_eq readAt n
      (.newIteratorImpl (found.map Prod.snd)) rfl
    rw [hscan, hlength, ← hfetch, ← List.map_take]
    rfl

/-- The scan of the one record. -/
theorem scan_reads_records_one :
    ∃ records : List Record, records.length = 1 ∧
      ∀ n, (IteratorImpl.newIteratorImpl [0]).scan
          (fun offset => oneQueried.index.file[offset]?) n =
        (records.map .ok).take n ++
          List.replicate (n - records.length) (.error "no more records") := by
  have hread : ReadsBack List.length oneQueried.index.file
      fun offset => oneQueried.index.file[offset]? := by
    intro before r after hfile
    show oneQueried.index.file[before.length]? = some r
    rw [hfile, List.getElem?_append_right (Nat.le_refl _), Nat.sub_self]
    rfl
  have hquery : Call.query 2 1 (.returned [0]) ∈ oneQueried.calls := by
    decide
  obtain ⟨records, hlength, -, -, -, hscan⟩ :=
    scan_reads_records List.length reaches_oneQueried .refl hread hquery
  exact ⟨records, hlength, hscan⟩

end GoPrep.Ports.GoIndex
