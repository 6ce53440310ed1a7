import GoPrep.Ports.IndexRecord

/-!
# Reading a record in chunks is reading it at once

`readRecordAt` of `src/iterator_plus_index.cpp` as a loop of its own, over a
file that may grow between two `pread`s.  How much a `pread` returns is up to
the system: between one byte and `sizeof(chunk)`, as far as the file goes, and
nothing at its end.

## Main results

* `readRecordAt_line`, `readRecordAt_unterminated` — the loop stops, and its
  answer depends on the line at the offset only.
* `readRecordAt_exact` — the answers for every file, offset and fragmentation.
-/

namespace GoPrep.Ports.IndexRecord

open GoPrep.Verified.ByteFile
open GoPrep.Verified.Decimal

/-- How many bytes a `pread` returns at most: some, and no more than asked
for. -/
abbrev ReadSize := { n : Nat // 0 < n ∧ n ≤ chunkSize }

/-- The loop of `readRecordAt`, its `k`-th `pread` finding the file as
`files k`; `none` means that the fuel was not enough. -/
def Iterator.readRecordAt (files : Nat → Bytes) (sizes : Nat → ReadSize) :
    Nat → Nat → Iterator → Option Iterator
  | 0, _, _ => none
  | fuel + 1, k, it =>
      match it.reading with
      | none => some it
      | some reading =>
          readRecordAt files sizes fuel (k + 1)
            (it.readChunk reading (pread (files k) reading.pos (sizes k).val))

/-- `Next` has called `readRecordAt(offset, out)`. -/
def Iterator.readingAt (it : Iterator) (offset : Nat) : Iterator :=
  { it with reading := some ⟨[], offset⟩ }

/-- What `Next` returns, unless it throws. -/
def NextResult.value : NextResult → Option Bool
  | .record _ => some true
  | .ended => some false
  | .failed => some false
  | .threw _ => none

/-- What `out` holds after `Next`. -/
def NextResult.out (before : Record) : NextResult → Record
  | .record r => r
  | _ => before

/-- A whole call of `Next` that finds the file as `files k` at its `k`-th
`pread`. -/
def Iterator.nextRecord (files : Nat → Bytes) (sizes : Nat → ReadSize)
    (fuel : Nat) (it : Iterator) : Option Iterator :=
  Iterator.readRecordAt files sizes fuel 0 it.next

/-- `Next` of an open iterator reads at the offset its cursor stands at. -/
theorem next_eq_readingAt {it : Iterator} (hopen : it.closed = false)
    {offset : Nat} (hoffset : it.fileOffsets[it.cursor]? = some offset) :
    it.next = { it with cursor := it.cursor + 1 }.readingAt offset := by
  obtain ⟨hlt, -⟩ := List.getElem?_eq_some_iff.mp hoffset
  have hhas : it.hasNext = true := by simp [Iterator.hasNext, hopen, hlt]
  unfold Iterator.next
  rw [hopen, hhas, List.getD_eq_getElem?_getD, hoffset]
  rfl

/-! ## The loop stops -/

/-- **Run rule.**  If every chunk makes the call answer `result` or leaves it
inside `body` with more of it read, the loop answers `result`. -/
theorem readRecordAt_of_readChunk {files : Nat → Bytes}
    {sizes : Nat → ReadSize} {body : Bytes} {offset : Nat}
    {result : NextResult} (it : Iterator)
    (hchunk : ∀ k reading, InsideLine body offset reading →
      it.readChunk reading (pread (files k) reading.pos (sizes k).val) =
          it.answer result ∨
      ∃ reading', InsideLine body offset reading' ∧
        reading.buf.length < reading'.buf.length ∧
        it.readChunk reading (pread (files k) reading.pos (sizes k).val) =
          { it with reading := some reading' })
    {fuel : Nat} (k : Nat) {reading : Reading}
    (hinside : InsideLine body offset reading)
    (hfuel : body.length - reading.buf.length + 2 ≤ fuel) :
    Iterator.readRecordAt files sizes fuel k
      { it with reading := some reading } = some (it.answer result) := by
  have hsame : ∀ reading chunk,
      { it with reading := some reading }.readChunk reading chunk =
        it.readChunk reading chunk := by
    intro reading chunk
    unfold Iterator.readChunk
    split
    · rfl
    · dsimp only
      split <;> rfl
  induction fuel generalizing k reading with
  | zero => omega
  | succ fuel ih =>
      rw [Iterator.readRecordAt]
      simp only [hsame]
      rcases hchunk k reading hinside with hanswer |
        ⟨reading', hinside', hlonger, hstays⟩
      · obtain ⟨fuel, rfl⟩ : ∃ n, fuel = n + 1 := ⟨fuel - 1, by omega⟩
        rw [hanswer]
        rfl
      · have hle := hinside'.buf.length_le
        rw [hstays]
        exact ih (k + 1) hinside' (by omega)

/-- **A line of the file** is read as a whole, however the file grows behind
it. -/
theorem readRecordAt_line {files : Nat → Bytes} {offset : Nat} {body : Bytes}
    (hline : ∀ k, body ++ [newline] <+: (files k).drop offset)
    (hfree : newline ∉ body) (sizes : Nat → ReadSize) (it : Iterator)
    {fuel : Nat} (hfuel : body.length + 2 ≤ fuel) :
    Iterator.readRecordAt files sizes fuel 0 (it.readingAt offset) =
      some (it.answer (parseLine body)) :=
  readRecordAt_of_readChunk it
    (fun k _ hinside =>
      readChunk_line (hline k) hfree hinside (sizes k).property.1 it)
    0 (insideLine_start body offset) hfuel

/-- Without a newline the loop ends at the end of the file. -/
theorem readRecordAt_unterminated {file : Bytes} {offset : Nat}
    (hfree : newline ∉ file.drop offset) (sizes : Nat → ReadSize)
    (it : Iterator) {fuel : Nat}
    (hfuel : (file.drop offset).length + 2 ≤ fuel) :
    Iterator.readRecordAt (fun _ => file) sizes fuel 0 (it.readingAt offset) =
      some (it.answer .failed) := by
  refine readRecordAt_of_readChunk it (fun k reading hinside => ?_) 0
    (insideLine_start (file.drop offset) offset) hfuel
  obtain ⟨buf, pos⟩ := reading
  obtain ⟨⟨unread, hbody⟩, hpos⟩ := hinside
  simp only at hbody hpos
  have hrest : file.drop pos = unread := by
    rw [hpos, ← List.drop_drop, ← hbody, List.drop_left]
  have hprefix : pread file pos (sizes k).val <+: unread := by
    rw [pread, hrest]
    exact List.take_prefix _ _
  by_cases hend : pread file pos (sizes k).val = []
  · left
    rw [hend]
    unfold Iterator.readChunk
    rw [if_pos rfl]
  · right
    exact readChunk_within hbody hpos hfree hprefix hend it

/-! ## What it answers -/

/-- The record at an offset, parsed with the whole file at hand. -/
def recordAt (file : Bytes) (offset : Nat) : NextResult :=
  match find newline (file.drop offset) with
  | none => .failed
  | some nl => parseLine ((file.drop offset).take nl)

/-- **The loop answers what the whole file parses to.** -/
theorem readRecordAt_eq (file : Bytes) (offset : Nat)
    (sizes : Nat → ReadSize) (it : Iterator) {fuel : Nat}
    (hfuel : file.length - offset + 2 ≤ fuel) :
    Iterator.readRecordAt (fun _ => file) sizes fuel 0 (it.readingAt offset) =
      some (it.answer (recordAt file offset)) := by
  rw [← List.length_drop] at hfuel
  by_cases hfree : newline ∈ file.drop offset
  · obtain ⟨line, rest, hline, hfirst⟩ := List.eq_append_cons_of_mem hfree
    have hrecord : recordAt file offset = parseLine line := by
      simp only [recordAt, hline, find_append_cons hfirst, List.take_left]
    have hlength : line.length ≤ (file.drop offset).length := by
      rw [hline, List.length_append]
      omega
    rw [hrecord]
    refine readRecordAt_line (fun _ => ⟨rest, ?_⟩) hfirst sizes it (by omega)
    rw [hline, ← List.append_cons]
  · have hrecord : recordAt file offset = .failed := by
      simp only [recordAt, find_eq_none hfree]
    rw [hrecord]
    exact readRecordAt_unterminated hfree sizes it hfuel

/-- **Chunked reads.**  For every file and offset there is one answer, which
`readRecordAt` adds to those of the iterator however its reads are cut, and
nothing else changes: the record, where a numeral below `2^64`, a space and a
text without newline end in a newline there, and a failure, where no line with
a space does. -/
theorem readRecordAt_exact (file : Bytes) (offset : Nat) :
    ∃ result,
      (∀ (sizes : Nat → ReadSize) (it : Iterator) (fuel : Nat),
        file.length - offset + 2 ≤ fuel →
        Iterator.readRecordAt (fun _ => file) sizes fuel 0
            (it.readingAt offset) =
          some { it with
            reading := none
            results := it.results ++ [result] }) ∧
      (∀ digits text rest,
        file.drop offset = digits ++ space :: text ++ newline :: rest →
        digits ≠ [] → (∀ b ∈ digits, isDigit b = true) →
        decimalValue digits < 2 ^ 64 → newline ∉ text →
        result.value = some true ∧
        ∀ out, result.out out =
          ⟨UInt64.ofNat (decimalValue digits), text⟩) ∧
      (newline ∉ file.drop offset ∨
          (∃ line rest, file.drop offset = line ++ newline :: rest ∧
            newline ∉ line ∧ space ∉ line) →
        result.value = some false ∧ ∀ out, result.out out = out) := by
  have hline : ∀ line rest, file.drop offset = line ++ newline :: rest →
      newline ∉ line → recordAt file offset = parseLine line := by
    intro line rest hdrop hfirst
    simp only [recordAt, hdrop, find_append_cons hfirst, List.take_left]
  refine ⟨recordAt file offset, fun sizes it fuel hfuel =>
    readRecordAt_eq file offset sizes it hfuel, ?_, ?_⟩
  · intro digits text rest hdrop hne hdigits hlt htext
    have hfirst : newline ∉ digits ++ space :: text := by
      simp only [List.mem_append, List.mem_cons, not_or]
      exact ⟨fun hmem => (ne_of_isDigit (hdigits _ hmem)).2.2.2.2 rfl,
        by decide, htext⟩
    rw [hline _ rest hdrop hfirst, parseLine_digits hne hdigits hlt]
    exact ⟨rfl, fun _ => rfl⟩
  · intro hnone
    have hfailed : recordAt file offset = .failed := by
      rcases hnone with hfree | ⟨line, rest, hdrop, hfirst, hspace⟩
      · simp only [recordAt, find_eq_none hfree]
      · rw [hline line rest hdrop hfirst]
        simp only [parseLine, find_eq_none hspace]
    rw [hfailed]
    exact ⟨rfl, fun _ => rfl⟩

/-- The second record of a file, read one byte at a time. -/
theorem readRecordAt_exact_second :
    Iterator.readRecordAt
        (fun _ => [49, space, newline, 53, space, 97, 98, newline])
        (fun _ => ⟨1, by decide⟩) 7 0 ((Iterator.new []).readingAt 3) =
      some { Iterator.new [] with results := [.record ⟨5, [97, 98]⟩] } := by
  obtain ⟨result, hreads, hrecord, -⟩ := readRecordAt_exact
    [49, space, newline, 53, space, 97, 98, newline] 3
  obtain ⟨hvalue, hout⟩ := hrecord [53] [97, 98] [] rfl (by decide)
    (List.forall_mem_singleton.mpr rfl) (by decide) (by decide)
  rw [hreads _ _ _ (by decide)]
  cases result with
  | record r =>
      obtain rfl := hout ⟨0, []⟩
      rfl
  | ended => cases hvalue
  | failed => cases hvalue
  | threw e => cases hvalue

end GoPrep.Ports.IndexRecord
