import Mathlib.Algebra.Ring.Int.Defs
import GoPrep.Ports.IteratorPlusIndex
import GoPrep.Verified.ByteFile

/-!
# The index over an append-only file of tab-separated lines

A port of `src/index_and_iterator.cpp`, one call at a time: so its mutexes are
left out.  `indexImpl` appends a record to the table as its id, a tab, its
value and a newline, and maps the id to the offset `tellp` reported;
`iteratorImpl` seeks an offset in a stream of its own, extracts the id, takes
one character and the rest of the line.

A file that cannot be opened is `none`.  Writes succeed, and an offset is below
`2^63`.  The id of a local `Record` is not initialized: `next` is given what it
holds.

## Main results

* `next_spec` — `next` returns the line its offset points to and leaves the
  stream good.
* `drain_spec` — calling `next` until `hasNext` is false returns the lines of
  all the offsets.
* `scan_exact` — after any inserts of values without a newline, a scan returns
  the latest values of the first ids above the bound.
-/

namespace GoPrep.Ports.IndexAndIterator

open GoPrep.Ports.IndexRecord (isSpace newline ne_of_isDigit)
open GoPrep.Verified
open GoPrep.Verified.ByteFile
open GoPrep.Verified.Decimal
open GoPrep.Verified.SortedMap
open GoPrep.Verified.Transition

structure Record where
  id : UInt64
  value : Bytes
  deriving DecidableEq, Repr

def tab : UInt8 := 9

/-- `operator<<`. -/
def Record.format (r : Record) : Bytes :=
  decimal r.id.toNat ++ [tab] ++ r.value

/-! ## The iterator -/

/-- `iteratorImpl`. -/
structure Iterator where
  offsets : List Nat
  currentIndex : Nat
  inFile : InputStream
  deriving DecidableEq, Repr

namespace Iterator

/-- The constructor. -/
def new (scannedOffsets : List Nat) (file : Option Bytes) :
    Except String Iterator :=
  match file with
  | none => .error "iterator could not open file to read"
  | some file => .ok ⟨scannedOffsets, 0, .ofFile file⟩

def hasNext (it : Iterator) : Bool :=
  decide (it.currentIndex < it.offsets.length) && it.inFile.isOpen

/-- `uninit` is what the id of the new `Record` holds. -/
def next (it : Iterator) (uninit : UInt64) :
    Except String (Record × Iterator) :=
  if !it.hasNext then .error "No more elements in the iterator"
  else
    let targetOffset := it.offsets.getD it.currentIndex 0
    let currentIndex := it.currentIndex + 1
    let inFile := it.inFile.seekg targetOffset
    let (id, inFile) := inFile.extract isSpace uninit
    if inFile.failbit then
      .ok (⟨id, []⟩, ⟨it.offsets, currentIndex, inFile⟩)
    else
      let (_, inFile) := inFile.get
      let (value, inFile) := inFile.getline newline []
      .ok (⟨id, value⟩, ⟨it.offsets, currentIndex, inFile⟩)

/-- A client that calls `next` until `hasNext` is false; `none` when it has not
come to an end or an exception was thrown. -/
def drain (uninit : Nat → UInt64) :
    Nat → Iterator → Option (List Record × Iterator)
  | 0, _ => none
  | fuel + 1, it =>
      if it.hasNext then
        match it.next (uninit it.currentIndex) with
        | .error _ => none
        | .ok (r, it) =>
            (drain uninit fuel it).map fun (rs, last) => (r :: rs, last)
      else some ([], it)

/-- One call of `next`, as a step. -/
def Nexts (it : Iterator) (r : Record) (it' : Iterator) : Prop :=
  ∃ uninit, it.next uninit = .ok (r, it')

end Iterator

/-! ## The index -/

/-- `indexImpl`; `table` is the content of the file it appends to. -/
structure Index where
  table : Bytes
  idToOffsetMap : OrderedMap UInt64 Nat

/-- `static_cast<size_t>`. -/
def toSizeT (n : Int32) : Nat := (n.toInt % 2 ^ 64).toNat

/-- The loop of `query`. -/
def collectLoop (limit : Int32) :
    List (UInt64 × Nat) → List Nat → List Nat
  | [], collectedOffsets => collectedOffsets
  | e :: rest, collectedOffsets =>
      if collectedOffsets.length < toSizeT limit then
        collectLoop limit rest (collectedOffsets ++ [e.2])
      else collectedOffsets

namespace Index

/-- The constructor. -/
def new (file : Option Bytes) : Except String Index :=
  match file with
  | none => .error "could not open file to store the table"
  | some file => .ok ⟨file, .empty⟩

def insert (x : Index) (id : UInt64) (value : Bytes) : Index where
  table := x.table ++ (Record.format ⟨id, value⟩ ++ [newline])
  idToOffsetMap := x.idToOffsetMap.insert id x.table.length

def insertAll (x : Index) (inserts : List (UInt64 × Bytes)) : Index :=
  inserts.foldl (fun x e => x.insert e.1 e.2) x

def collect (x : Index) (minId : UInt64) (limit : Int32) : List Nat :=
  collectLoop limit (x.idToOffsetMap.upperBound minId) []

/-- `opens` tells whether the iterator can open the file. -/
def query (x : Index) (minId : UInt64) (limit : Int32) (opens : Bool) :
    Except String Iterator :=
  Iterator.new (x.collect minId limit) (if opens then some x.table else none)

end Index

/-! ## Reading a line -/

/-- What was inserted and where: an id, its offset and its value. -/
abbrev Entry := UInt64 × Nat × Bytes

def Entry.record (e : Entry) : Record := ⟨e.1, e.2.2⟩

/-- The line of an entry stands in the file. -/
structure LineAt (file : Bytes) (e : Entry) : Prop where
  stored : ∃ tail, file.drop e.2.1 = e.record.format ++ newline :: tail
  noNewline : newline ∉ e.2.2

/-- The iterator goes through these entries and its stream is good. -/
structure Scans (es : List Entry) (it : Iterator) : Prop where
  offsets : it.offsets = es.map fun e => e.2.1
  lines : ∀ e ∈ es, LineAt it.inFile.file e
  isOpen : it.inFile.isOpen = true
  good : it.inFile.good = true

variable {es : List Entry} {it : Iterator}

theorem Scans.hasNext_iff (h : Scans es it) :
    it.hasNext = true ↔ it.currentIndex < es.length := by
  rw [Iterator.hasNext, h.isOpen, h.offsets, List.length_map, Bool.and_true,
    decide_eq_true_eq]

theorem Scans.hasNext_eq_false (h : Scans es it)
    (hge : es.length ≤ it.currentIndex) : it.hasNext = false :=
  Bool.eq_false_iff.mpr fun hhas =>
    Nat.not_lt.mpr hge (h.hasNext_iff.mp hhas)

/-- The id of a line is extracted up to the tab. -/
theorem extract_id {s : InputStream} (hgood : s.good = true) {id : UInt64}
    {tail : Bytes} (hrest : s.rest = decimal id.toNat ++ tab :: tail)
    (uninit : UInt64) :
    s.extract isSpace uninit = (id, s.advance (decimal id.toNat).length) := by
  rw [InputStream.extract_eq (fun b hb => (ne_of_isDigit hb).1) hgood hrest
    (decimal_ne_nil _) (fun b hb => isDigit_of_mem_decimal hb) (by decide)
    (decimalValue_toNat_lt id), ofNat_decimalValue_toNat]

/-- **The line at an offset is read back and no flag is set.** -/
theorem next_spec (h : Scans es it) {e : Entry}
    (he : es[it.currentIndex]? = some e) (uninit : UInt64) :
    ∃ it', it.next uninit = .ok (e.record, it') ∧ Scans es it' ∧
      it'.currentIndex = it.currentIndex + 1 := by
  have hlt := (List.getElem?_eq_some_iff.mp he).1
  have hline := h.lines e (List.mem_of_getElem? he)
  obtain ⟨tail, hstored⟩ := hline.stored
  have htarget : it.offsets.getD it.currentIndex 0 = e.2.1 := by
    rw [h.offsets, List.getD_eq_getElem?_getD, List.getElem?_map, he]
    rfl
  let s : InputStream := { it.inFile with pos := e.2.1 }
  have hseek : it.inFile.seekg e.2.1 = s := InputStream.seekg_eq h.good e.2.1
  have hgood : s.good = true := h.good
  have hrest : s.rest =
      decimal e.1.toNat ++ tab :: (e.2.2 ++ newline :: tail) := by
    show it.inFile.file.drop e.2.1 = _
    rw [hstored]
    simp [Record.format, Entry.record]
  have hextract := extract_id hgood hrest uninit
  let s₁ := s.advance (decimal e.1.toNat).length
  have hgood₁ : s₁.good = true := (s.good_advance _).trans hgood
  have hrest₁ : s₁.rest = tab :: (e.2.2 ++ newline :: tail) := by
    rw [InputStream.rest_advance, hrest, List.drop_left]
  have hget := InputStream.get_eq hgood₁ hrest₁
  have hrest₂ : (s₁.advance 1).rest = e.2.2 ++ newline :: tail := by
    rw [InputStream.rest_advance, hrest₁]
    rfl
  have hgood₂ := (s₁.good_advance 1).trans hgood₁
  have hgetline := InputStream.getline_eq hgood₂ hrest₂ hline.noNewline []
  refine ⟨⟨it.offsets, it.currentIndex + 1,
    (s₁.advance 1).advance (e.2.2.length + 1)⟩, ?_, ?_, rfl⟩
  · have hhas := h.hasNext_iff.mpr hlt
    have hfail := InputStream.failbit_of_good hgood₁
    simp only [Iterator.next, hhas, Bool.not_true, Bool.false_eq_true,
      if_false, htarget, hseek, hextract]
    rw [if_neg (by simp [hfail, s₁]), hget, hgetline]
    rfl
  · exact ⟨h.offsets, h.lines, h.isOpen, h.good⟩

/-- Whatever `next` returns, the stream is good afterwards. -/
theorem scans_of_nexts (h : Scans es it) {r : Record} {it' : Iterator}
    (hnexts : it.Nexts r it') : Scans es it' := by
  obtain ⟨uninit, hnext⟩ := hnexts
  by_cases hlt : it.currentIndex < es.length
  · obtain ⟨it'', hspec, hscans, -⟩ := next_spec h
      (List.getElem?_eq_getElem hlt) uninit
    rw [hspec] at hnext
    cases hnext
    exact hscans
  · have hhas := h.hasNext_eq_false (Nat.not_lt.mp hlt)
    simp [Iterator.next, hhas] at hnext

/-- **Draining an iterator returns the lines of all its entries.** -/
theorem drain_spec (uninit : Nat → UInt64) {left : List Entry}
    (h : Scans es it) (hleft : es.drop it.currentIndex = left) :
    ∃ last, last.hasNext = false ∧
      ∀ fuel, left.length < fuel →
        it.drain uninit fuel = some (left.map Entry.record, last) := by
  induction left generalizing it with
  | nil =>
      have hhas := h.hasNext_eq_false (List.drop_eq_nil_iff.mp hleft)
      refine ⟨it, hhas, fun fuel hfuel => ?_⟩
      obtain ⟨n, rfl⟩ := Nat.exists_eq_succ_of_ne_zero (Nat.ne_of_gt hfuel)
      simp [Iterator.drain, hhas]
  | cons e left ih =>
      have he : es[it.currentIndex]? = some e := by
        rw [← List.head?_drop, hleft]
        rfl
      obtain ⟨it', hnext, hscans, hindex⟩ :=
        next_spec h he (uninit it.currentIndex)
      have hleft' : es.drop it'.currentIndex = left := by
        rw [hindex, ← List.tail_drop, hleft]
        rfl
      have hhas := h.hasNext_iff.mpr (List.getElem?_eq_some_iff.mp he).1
      obtain ⟨last, hlast, hdrain⟩ := ih hscans hleft'
      refine ⟨last, hlast, fun fuel hfuel => ?_⟩
      rw [List.length_cons] at hfuel
      obtain ⟨n, rfl⟩ := Nat.exists_eq_succ_of_ne_zero
        (Nat.ne_of_gt (Nat.zero_lt_of_lt hfuel))
      rw [Iterator.drain, if_pos hhas, hnext, List.map_cons]
      simp only [hdrain n (by omega), Option.map_some]

/-! ## What the inserts leave behind -/

theorem LineAt.append {file : Bytes} {e : Entry} (h : LineAt file e)
    (more : Bytes) : LineAt (file ++ more) e := by
  obtain ⟨tail, hstored⟩ := h.stored
  refine ⟨⟨tail ++ more, ?_⟩, h.noNewline⟩
  have hle : e.2.1 ≤ file.length := by
    have hlength := congrArg List.length hstored
    simp at hlength
    omega
  rw [List.drop_append_of_le_length hle, hstored, List.append_assoc]
  rfl

/-- The map points to the lines of the log, and they stand in the table. -/
structure Written (x : Index) (log : List Entry) : Prop where
  map : x.idToOffsetMap = ofLog (log.map (Prod.map id Prod.fst))
  lines : ∀ e ∈ log, LineAt x.table e

theorem written_new {file : Option Bytes} {x : Index}
    (h : Index.new file = .ok x) : Written x [] := by
  cases file with
  | none => cases h
  | some file =>
      cases h
      exact ⟨rfl, fun e he => absurd he List.not_mem_nil⟩

/-- **An insert writes its line at the end of the table.** -/
theorem Written.insert {x : Index} {log : List Entry} (h : Written x log)
    (id : UInt64) {value : Bytes} (hvalue : newline ∉ value) :
    Written (x.insert id value) (log ++ [(id, x.table.length, value)]) := by
  constructor
  · rw [List.map_append, List.map_singleton, ofLog_concat, ← h.map]
    rfl
  · intro e he
    rcases List.mem_append.mp he with he | he
    · exact (h.lines e he).append _
    · obtain rfl := List.mem_singleton.mp he
      refine ⟨⟨[], ?_⟩, hvalue⟩
      show (x.table ++ (Record.format ⟨id, value⟩ ++ [newline])).drop
        x.table.length = _
      rw [List.drop_left]
      rfl

/-- The log of a sequence of inserts. -/
theorem Written.insertAll {x : Index} {log : List Entry} (h : Written x log)
    {inserts : List (UInt64 × Bytes)}
    (hvalues : ∀ e ∈ inserts, newline ∉ e.2) :
    ∃ log', Written (x.insertAll inserts) (log ++ log') ∧
      log'.map (Prod.map id Prod.snd) = inserts := by
  induction inserts generalizing x log with
  | nil => exact ⟨[], by rwa [List.append_nil], rfl⟩
  | cons e rest ih =>
      have hfirst := h.insert e.1 (hvalues e List.mem_cons_self)
      obtain ⟨log', hwritten, hlog⟩ := ih hfirst
        fun e' he' => hvalues e' (List.mem_cons_of_mem e he')
      refine ⟨(e.1, x.table.length, e.2) :: log', ?_, ?_⟩
      · rw [List.append_assoc] at hwritten
        exact hwritten
      · rw [List.map_cons, hlog]
        rfl

/-! ## Whole scans -/

theorem collectLoop_eq (limit : Int32) (es : List (UInt64 × Nat))
    (collected : List Nat) :
    collectLoop limit es collected =
      collected ++
        (es.take (toSizeT limit - collected.length)).map Prod.snd := by
  induction es generalizing collected with
  | nil => simp [collectLoop]
  | cons e rest ih =>
      rw [collectLoop]
      by_cases hroom : collected.length < toSizeT limit
      · obtain ⟨n, hn⟩ : ∃ n, toSizeT limit - collected.length = n + 1 :=
          ⟨toSizeT limit - collected.length - 1, by omega⟩
        have hrest : toSizeT limit - (collected ++ [e.2]).length = n := by
          rw [List.length_append, List.length_singleton]
          omega
        rw [if_pos hroom, ih, hrest, hn, List.take_succ_cons, List.map_cons,
          List.append_assoc]
        rfl
      · have hzero : toSizeT limit - collected.length = 0 := by omega
        rw [if_neg hroom, hzero, List.take_zero, List.map_nil,
          List.append_nil]

/-- The cast keeps a limit that is not negative. -/
theorem toSizeT_of_nonneg {limit : Int32} (h : 0 ≤ limit) :
    toSizeT limit = limit.toInt.toNat := by
  have hlow : 0 ≤ limit.toInt := by
    have := Int32.le_iff_toInt_le.mp h
    simpa using this
  have hhigh := limit.toInt_lt
  rw [toSizeT, Int.emod_eq_of_lt hlow (by omega)]

/-- The entries of the log that a query selects. -/
def selected (log : List Entry) (minId : UInt64) (limit : Int32) :
    List Entry :=
  ((ofLog log).upperBound minId).take (toSizeT limit)

/-- A query hands out an iterator over the entries it selects. -/
theorem scans_query {x : Index} {log : List Entry} (h : Written x log)
    {minId : UInt64} {limit : Int32} {opens : Bool}
    (hquery : x.query minId limit opens = .ok it) :
    Scans (selected log minId limit) it ∧ it.currentIndex = 0 := by
  have hcollect : x.collect minId limit =
      (selected log minId limit).map fun e => e.2.1 := by
    rw [Index.collect, collectLoop_eq, List.nil_append, List.length_nil,
      Nat.sub_zero, h.map, ofLog_map, OrderedMap.upperBound_mapValues,
      ← List.map_take, List.map_map]
    rfl
  cases opens with
  | false => cases hquery
  | true =>
      cases hquery
      refine ⟨⟨hcollect, fun e he => h.lines e ?_, rfl, rfl⟩, rfl⟩
      have hupper := List.mem_of_mem_take he
      exact mem_of_mem_ofLog (OrderedMap.mem_upperBound.mp hupper).1

/-- The records of the selected entries are the first latest values. -/
theorem selectsAbove_selected (log : List Entry) (minId : UInt64)
    (limit : Int32) :
    SelectsAbove (latest (log.map (Prod.map id Prod.snd))) minId
      (toSizeT limit)
      (((selected log minId limit).map Entry.record).map
        fun r => (r.id, r.value)) := by
  have hrecords : ((selected log minId limit).map Entry.record).map
        (fun r => (r.id, r.value)) =
      ((ofLog (log.map (Prod.map id Prod.snd))).upperBound minId).take
        (toSizeT limit) := by
    rw [ofLog_map, OrderedMap.upperBound_mapValues, ← List.map_take,
      List.map_map]
    rfl
  rw [hrecords]
  exact selectsAbove_take_upperBound (fun _ _ => mem_ofLog) minId _

/-- **A scan returns the latest values of the first ids above the bound.**  For
every table there was before and every sequence of inserts of values without a
newline; the stream of the iterator stays good through every call of `next`. -/
theorem scan_exact {file : Option Bytes} {x : Index}
    (hnew : Index.new file = .ok x) {inserts : List (UInt64 × Bytes)}
    (hvalues : ∀ e ∈ inserts, newline ∉ e.2) (minId : UInt64)
    {limit : Int32} (hlimit : 0 ≤ limit) {opens : Bool} {it : Iterator}
    (hquery : (x.insertAll inserts).query minId limit opens = .ok it)
    (uninit : Nat → UInt64) :
    (∃ records last, last.hasNext = false ∧
      (∀ fuel, it.offsets.length < fuel →
        it.drain uninit fuel = some (records, last)) ∧
      SelectsAbove (latest inserts) minId limit.toInt.toNat
        (records.map fun r => (r.id, r.value))) ∧
    ∀ later, Reaches Iterator.Nexts it later → later.inFile.good = true := by
  obtain ⟨log, hwritten, rfl⟩ := (written_new hnew).insertAll hvalues
  rw [List.nil_append] at hwritten
  obtain ⟨hscans, hindex⟩ := scans_query hwritten hquery
  constructor
  · obtain ⟨last, hlast, hdrain⟩ := drain_spec uninit hscans
      (by rw [hindex, List.drop_zero])
    refine ⟨_, last, hlast, fun fuel hfuel => hdrain fuel ?_, ?_⟩
    · rw [hscans.offsets, List.length_map] at hfuel
      exact hfuel
    · rw [← toSizeT_of_nonneg hlimit]
      exact selectsAbove_selected log minId limit
  · intro later hreaches
    exact (hreaches.invariant (fun _ _ _ h hnexts => scans_of_nexts h hnexts)
      hscans).good

/-- A table that does not end in a newline; values that hold tabs, digits and
spaces or nothing. -/
theorem scan_exact_delimiters :
    let inserts : List (UInt64 × Bytes) :=
      [(5, [tab, 55]), (3, []), (5, [32, tab, 49])]
    let it : Iterator := ⟨[7, 10], 0,
      .ofFile [49, tab, 53, tab, tab, 55, 10, 51, tab, 10, 53, tab, 32, tab,
        49, 10]⟩
    ∃ x records last, Index.new (some [49, tab]) = .ok x ∧
      (x.insertAll inserts).query 2 7 true = .ok it ∧
      it.drain (fun _ => 0) 3 = some (records, last) ∧
      records = [⟨3, []⟩, ⟨5, [32, tab, 49]⟩] ∧
      SelectsAbove (latest inserts) 2 7
        (records.map fun r => (r.id, r.value)) := by
  intro inserts it
  let x : Index := ⟨[49, tab], .empty⟩
  have hquery : (x.insertAll inserts).query 2 7 true = .ok it := by decide
  obtain ⟨⟨records, last, -, hdrain, hselects⟩, -⟩ :=
    scan_exact (rfl : Index.new (some [49, tab]) = .ok x) (by decide) 2
      (by decide) hquery (fun _ => 0)
  have hrun := hdrain 3 (by decide)
  have hrecords : (it.drain (fun _ => 0) 3).map Prod.fst =
      some [⟨3, []⟩, ⟨5, [32, tab, 49]⟩] := by decide
  rw [hrun] at hrecords
  exact ⟨x, records, last, rfl, hquery, hrun, Option.some.inj hrecords,
    hselects⟩

end GoPrep.Ports.IndexAndIterator
