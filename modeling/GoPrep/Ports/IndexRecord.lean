import Mathlib.Algebra.Ring.Nat
import Mathlib.Data.List.TakeWhile
import GoPrep.Verified.ByteFile
import GoPrep.Verified.Decimal

/-!
# Records of the index file and the iterator that reads them

A port of the line format of `src/iterator_plus_index.cpp`, which stores a
record as `to_string(id) + " " + text + "\n"`, and of `iteratorImpl`, which
reads a record back in chunks of at most 256 bytes until it has met a
newline, splits the line at its first space and converts the part before it
with `std::stoull`.

A call of `Next` is a sequence of steps: `Iterator.next` up to the first
`pread`, then `Iterator.readChunk` on what each `pread` returns.  `results`
is the history of what the calls of `Next` have answered.

## Main results

* `parseLine_body` — a stored line converts back.
* `readChunk_line` — inside a line of the file every chunk either leaves the
  call there or makes it answer what the line parses to.
* `readChunk_spec` — where a stored record without a newline in its text lies
  in the file, every chunk either leaves the call inside the line or makes it
  answer exactly that record, however the reads are cut.
-/

namespace GoPrep.Ports.IndexRecord

open GoPrep.Verified.ByteFile
open GoPrep.Verified.Decimal

structure Record where
  id : UInt64
  text : Bytes
  deriving DecidableEq, Repr

def space : UInt8 := 32

def newline : UInt8 := 10

/-- The line of a record without its newline. -/
def Record.body (r : Record) : Bytes :=
  decimal r.id.toNat ++ [space] ++ r.text

/-- What `Insert` writes. -/
def Record.line (r : Record) : Bytes :=
  r.body ++ [newline]

/-! ## Conversions -/

/-- The exceptions of `std::stoull`. -/
inductive StoullError
  | invalidArgument
  | outOfRange
  deriving DecidableEq, Repr

/-- `isspace` in the classic locale. -/
def isSpace (b : UInt8) : Bool :=
  b = 32 ∨ (9 ≤ b.toNat ∧ b.toNat ≤ 13)

/-- An optional sign, and what follows it. -/
def splitSign : Bytes → Bool × Bytes
  | [] => (false, [])
  | b :: rest =>
      if b = 45 then (true, rest)
      else if b = 43 then (false, rest)
      else (false, b :: rest)

/-- `std::stoull` in base ten: white space, a sign, digits; a minus sign
negates modulo `2^64`. -/
def stoull (s : Bytes) : Except StoullError UInt64 :=
  let signed := splitSign (s.dropWhile isSpace)
  let digits := signed.2.takeWhile isDigit
  if digits = [] then .error .invalidArgument
  else if 2 ^ 64 ≤ decimalValue digits then .error .outOfRange
  else
    let n := UInt64.ofNat (decimalValue digits)
    .ok (if signed.1 then -n else n)

/-- `std::string::find` of one byte. -/
def find (b : UInt8) (s : Bytes) : Option Nat :=
  s.findIdx? (fun c => c == b)

/-- What a call of `Next` answers.  `ended` and `failed` both return false;
`failed` after a diagnostic. -/
inductive NextResult
  | record (r : Record)
  | ended
  | failed
  | threw (e : StoullError)
  deriving DecidableEq, Repr

/-- The end of `readRecordAt`, on the line without its newline. -/
def parseLine (line : Bytes) : NextResult :=
  match find space line with
  | none => .failed
  | some sp =>
      match stoull (line.take sp) with
      | .error e => .threw e
      | .ok id => .record ⟨id, line.drop (sp + 1)⟩

theorem ne_of_isDigit {b : UInt8} (h : isDigit b = true) :
    isSpace b = false ∧ b ≠ 45 ∧ b ≠ 43 ∧ b ≠ space ∧ b ≠ newline := by
  simp only [isDigit, decide_eq_true_eq] at h
  refine ⟨?_, ?_, ?_, ?_, ?_⟩
  · simp only [isSpace, decide_eq_false_iff_not]
    rintro (rfl | hb)
    · exact absurd h (by decide)
    · omega
  all_goals
    rintro rfl
    exact absurd h (by decide)

/-- A numeral converts to its value. -/
theorem stoull_digits {digits : Bytes} (hne : digits ≠ [])
    (hdigits : ∀ b ∈ digits, isDigit b = true)
    (hlt : decimalValue digits < 2 ^ 64) :
    stoull digits = .ok (UInt64.ofNat (decimalValue digits)) := by
  cases digits with
  | nil => exact absurd rfl hne
  | cons b rest =>
      obtain ⟨hspace, hminus, hplus, -⟩ :=
        ne_of_isDigit (hdigits b List.mem_cons_self)
      have hall : (b :: rest).takeWhile isDigit = b :: rest :=
        List.takeWhile_eq_self_iff.mpr hdigits
      have hsign : splitSign ((b :: rest).dropWhile isSpace) =
          (false, b :: rest) := by
        rw [List.dropWhile_cons, hspace]
        simp [splitSign, hminus, hplus]
      simp only [stoull, hsign, hall]
      rw [if_neg (List.cons_ne_nil b rest), if_neg (Nat.not_le.mpr hlt)]
      simp

theorem find_eq_none {b : UInt8} {s : Bytes} (h : b ∉ s) :
    find b s = none := by
  rw [find, List.findIdx?_eq_none_iff]
  intro c hc
  simp only [beq_eq_false_iff_ne, ne_eq]
  rintro rfl
  exact h hc

theorem find_append_cons {b : UInt8} {before : Bytes} (h : b ∉ before)
    (after : Bytes) : find b (before ++ b :: after) = some before.length := by
  induction before with
  | nil => simp [find, List.findIdx?_cons]
  | cons c before ih =>
      have hc : (c == b) = false := by
        simp only [beq_eq_false_iff_ne, ne_eq]
        rintro rfl
        exact h List.mem_cons_self
      have htail := ih fun hb => h (List.mem_cons_of_mem c hb)
      rw [find] at htail ⊢
      rw [List.cons_append, List.findIdx?_cons, hc, htail]
      rfl

/-- A line whose part before the first space is a numeral. -/
theorem parseLine_digits {digits : Bytes} (hne : digits ≠ [])
    (hdigits : ∀ b ∈ digits, isDigit b = true)
    (hlt : decimalValue digits < 2 ^ 64) (text : Bytes) :
    parseLine (digits ++ space :: text) =
      .record ⟨UInt64.ofNat (decimalValue digits), text⟩ := by
  have hfree : space ∉ digits := fun hmem =>
    (ne_of_isDigit (hdigits space hmem)).2.2.2.1 rfl
  have hdrop : (digits ++ space :: text).drop (digits.length + 1) = text := by
    rw [List.append_cons]
    exact List.drop_left' (by simp)
  simp only [parseLine, find_append_cons hfree, List.take_left, hdrop,
    stoull_digits hne hdigits hlt]

/-- **A stored line parses to its record.** -/
theorem parseLine_body (r : Record) : parseLine r.body = .record r := by
  rw [Record.body, List.append_assoc, List.singleton_append,
    parseLine_digits (decimal_ne_nil _) (fun _ => isDigit_of_mem_decimal)
      (decimalValue_toNat_lt r.id), ofNat_decimalValue_toNat]

theorem newline_notMem_body {r : Record} (h : newline ∉ r.text) :
    newline ∉ r.body := by
  intro hmem
  simp only [Record.body, List.mem_append, List.mem_singleton] at hmem
  rcases hmem with (hmem | hmem) | hmem
  · exact (ne_of_isDigit (isDigit_of_mem_decimal hmem)).2.2.2.2 rfl
  · exact absurd hmem (by decide)
  · exact h hmem

/-! ## The iterator -/

/-- The locals of the loop in `readRecordAt`. -/
structure Reading where
  buf : Bytes
  pos : Nat
  deriving DecidableEq, Repr

/-- `iteratorImpl`, with the `Next` call it is in, if any, and the answers of
those it has finished. -/
structure Iterator where
  fileOffsets : List Nat
  cursor : Nat
  closed : Bool
  reading : Option Reading
  results : List NextResult
  deriving DecidableEq, Repr

/-- `sizeof(chunk)`. -/
def chunkSize : Nat := 256

namespace Iterator

def new (fileOffsets : List Nat) : Iterator :=
  { fileOffsets := fileOffsets
    cursor := 0
    closed := false
    reading := none
    results := [] }

def hasNext (it : Iterator) : Bool :=
  if it.closed then false else decide (it.cursor < it.fileOffsets.length)

/-- `Next` returns. -/
def answer (it : Iterator) (result : NextResult) : Iterator :=
  { it with reading := none, results := it.results ++ [result] }

/-- `Next` up to the first `pread`. -/
def next (it : Iterator) : Iterator :=
  if it.closed then it.answer .ended
  else if !it.hasNext then it.answer .ended
  else
    { it with
      cursor := it.cursor + 1
      reading := some ⟨[], it.fileOffsets.getD it.cursor 0⟩ }

/-- The loop of `readRecordAt` after a `pread` that returned `chunk`. -/
def readChunk (it : Iterator) (reading : Reading) (chunk : Bytes) :
    Iterator :=
  if chunk = [] then it.answer .failed
  else
    let buf := reading.buf ++ chunk
    match find newline buf with
    | some nl => it.answer (parseLine (buf.take nl))
    | none =>
        { it with reading := some ⟨buf, reading.pos + chunk.length⟩ }

def close (it : Iterator) : Iterator := { it with closed := true }

end Iterator

namespace Iterator

variable (it : Iterator)

@[simp] theorem fileOffsets_next : it.next.fileOffsets = it.fileOffsets := by
  unfold next
  split
  · rfl
  split <;> rfl

@[simp] theorem fileOffsets_readChunk (reading : Reading) (chunk : Bytes) :
    (it.readChunk reading chunk).fileOffsets = it.fileOffsets := by
  unfold readChunk
  split
  · rfl
  · dsimp only
    split <;> rfl

end Iterator

/-- The call is inside the line of `r`, which starts at `offset`. -/
structure Inside (r : Record) (offset : Nat) (reading : Reading) : Prop where
  buf : reading.buf <+: r.body
  pos : reading.pos = offset + reading.buf.length

theorem inside_start (r : Record) (offset : Nat) :
    Inside r offset ⟨[], offset⟩ :=
  ⟨List.nil_prefix, rfl⟩

/-- The call is inside a line `body`, which starts at `offset`. -/
structure InsideLine (body : Bytes) (offset : Nat) (reading : Reading) :
    Prop where
  buf : reading.buf <+: body
  pos : reading.pos = offset + reading.buf.length

theorem insideLine_start (body : Bytes) (offset : Nat) :
    InsideLine body offset ⟨[], offset⟩ :=
  ⟨List.nil_prefix, rfl⟩

/-- A chunk that ends before the line does. -/
theorem readChunk_within {body unread : Bytes} {buf : Bytes} {offset pos : Nat}
    (hbody : buf ++ unread = body) (hpos : pos = offset + buf.length)
    (hfree : newline ∉ body) {chunk : Bytes} (hchunk : chunk <+: unread)
    (hne : chunk ≠ []) (it : Iterator) :
    ∃ reading', InsideLine body offset reading' ∧
      buf.length < reading'.buf.length ∧
      it.readChunk ⟨buf, pos⟩ chunk = { it with reading := some reading' } := by
  have hinitial : buf ++ chunk <+: body :=
    hbody ▸ (List.prefix_append_right_inj buf).mpr hchunk
  have hfree' : newline ∉ buf ++ chunk := fun hmem =>
    hfree (hinitial.subset hmem)
  have hlength := List.length_pos_iff.mpr hne
  refine ⟨⟨buf ++ chunk, pos + chunk.length⟩, ⟨hinitial, ?_⟩, ?_, ?_⟩
  · simp only [List.length_append, hpos]
    omega
  · simp only [List.length_append]
    omega
  · unfold Iterator.readChunk
    rw [if_neg hne]
    simp only [find_eq_none hfree']

/-- **One chunk of a line.**  The call stays inside the line, with more of it
read, or answers what the line parses to. -/
theorem readChunk_line {file : Bytes} {offset : Nat} {body : Bytes}
    (hline : body ++ [newline] <+: file.drop offset) (hfree : newline ∉ body)
    {reading : Reading} (hinside : InsideLine body offset reading) {n : Nat}
    (hn : 0 < n) (it : Iterator) :
    it.readChunk reading (pread file reading.pos n) =
        it.answer (parseLine body) ∨
    ∃ reading', InsideLine body offset reading' ∧
      reading.buf.length < reading'.buf.length ∧
      it.readChunk reading (pread file reading.pos n) =
        { it with reading := some reading' } := by
  obtain ⟨buf, pos⟩ := reading
  obtain ⟨⟨unread, hbody⟩, hpos⟩ := hinside
  obtain ⟨tail, hfile⟩ := hline
  simp only at hbody hpos
  -- the file continues at `pos` with the unread part of the line
  have hrest : file.drop pos = unread ++ newline :: tail := by
    rw [hpos, ← List.drop_drop, ← hfile, ← hbody]
    simp
  have hchunk : pread file pos n = (unread ++ newline :: tail).take n := by
    rw [pread, hrest]
  have hne : pread file pos n ≠ [] := by
    rw [hchunk]
    intro hnil
    rcases List.take_eq_nil_iff.mp hnil with hnil | hnil
    · omega
    · simp at hnil
  by_cases hshort : n ≤ unread.length
  · right
    have htake : pread file pos n = unread.take n := by
      rw [hchunk, List.take_append_of_le_length hshort]
    exact readChunk_within hbody hpos hfree (htake ▸ List.take_prefix n unread)
      hne it
  · left
    obtain ⟨m, rfl⟩ : ∃ m, n = unread.length + (m + 1) :=
      ⟨n - unread.length - 1, by omega⟩
    have htake : buf ++ pread file pos (unread.length + (m + 1)) =
        body ++ newline :: tail.take m := by
      rw [hchunk, List.take_length_add_append, List.take_succ_cons,
        ← List.append_assoc, hbody]
    unfold Iterator.readChunk
    rw [if_neg hne]
    simp only [htake]
    rw [find_append_cons hfree]
    simp only [List.take_left]

/-- **One chunk of a stored line.**  The call stays inside the line, with more
of it read, or answers the record. -/
theorem readChunk_spec {file : Bytes} {offset : Nat} {r : Record}
    (hline : r.line <+: file.drop offset) (htext : newline ∉ r.text)
    {reading : Reading} (hinside : Inside r offset reading) {n : Nat}
    (hn : 0 < n) (it : Iterator) :
    it.readChunk reading (pread file reading.pos n) = it.answer (.record r) ∨
    ∃ reading', Inside r offset reading' ∧
      reading.buf.length < reading'.buf.length ∧
      it.readChunk reading (pread file reading.pos n) =
        { it with reading := some reading' } := by
  have hread := readChunk_line hline (newline_notMem_body htext)
    ⟨hinside.buf, hinside.pos⟩ hn it
  rw [parseLine_body] at hread
  refine hread.imp_right ?_
  rintro ⟨reading', hinside', hlonger, heq⟩
  exact ⟨reading', ⟨hinside'.buf, hinside'.pos⟩, hlonger, heq⟩

end GoPrep.Ports.IndexRecord
