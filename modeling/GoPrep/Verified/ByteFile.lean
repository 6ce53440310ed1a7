import Mathlib.Algebra.Ring.Nat
import Mathlib.Data.List.TakeWhile
import GoPrep.Verified.Decimal

/-!
# Files of bytes

A file is the list of its bytes.  `pwrite` replaces the bytes at an offset,
extending the file and filling a hole with zeros as POSIX prescribes; a short
write is a `pwrite` of a prefix of the data.  `pread` returns the bytes at an
offset, fewer than asked for at the end of the file; a short read is a `pread`
of a smaller count.

An open C++ input file stream is the bytes of the file, the position and the
state flags.  No read fails, so there is no `badbit`.  Each function begins as
its sentry does: a stream that is not good only gets its `failbit` set, which
then stays; `seekg` is the one that first clears `eofbit`.

The `_eq` lemmas give what a function reads and where it leaves a good stream
when what it looks for is there; none of them sets a flag.
-/

namespace GoPrep.Verified.ByteFile

/-! ## Positional access -/

abbrev Bytes := List UInt8

def pwrite (file : Bytes) (offset : Nat) (data : Bytes) : Bytes :=
  if data = [] then file
  else file.take offset ++ List.replicate (offset - file.length) 0 ++ data ++
    file.drop (offset + data.length)

def pread (file : Bytes) (offset count : Nat) : Bytes :=
  (file.drop offset).take count

variable {file data : Bytes} {offset : Nat}

theorem pwrite_eq (hle : offset ≤ file.length) :
    pwrite file offset data =
      file.take offset ++ data ++ file.drop (offset + data.length) := by
  unfold pwrite
  split
  next hnil =>
    subst hnil
    simp
  · rw [Nat.sub_eq_zero_of_le hle, List.replicate_zero, List.append_nil]

/-- **A write changes no byte before its offset.** -/
theorem take_pwrite_of_le (hle : offset ≤ file.length) {n : Nat}
    (hn : n ≤ offset) : (pwrite file offset data).take n = file.take n := by
  have hlength : (file.take offset).length = offset :=
    List.length_take_of_le hle
  rw [pwrite_eq hle, List.append_assoc,
    List.take_append_of_le_length (by omega), List.take_take,
    Nat.min_eq_left hn]

/-- **After a write the file continues with the data.** -/
theorem take_pwrite_add (hle : offset ≤ file.length) :
    (pwrite file offset data).take (offset + data.length) =
      file.take offset ++ data := by
  have hlength : (file.take offset ++ data).length =
      offset + data.length := by
    rw [List.length_append, List.length_take_of_le hle]
  rw [pwrite_eq hle, List.take_append_of_le_length (by omega),
    List.take_of_length_le (by omega)]

end GoPrep.Verified.ByteFile

namespace GoPrep.Verified

/-! ## Input streams -/

open GoPrep.Verified.ByteFile
open GoPrep.Verified.Decimal

structure InputStream where
  file : Bytes
  pos : Nat
  eofbit : Bool
  failbit : Bool
  isOpen : Bool
  deriving DecidableEq, Repr

namespace InputStream

def ofFile (file : Bytes) : InputStream := ⟨file, 0, false, false, true⟩

def good (s : InputStream) : Bool := !s.eofbit && !s.failbit

/-- What has not been read. -/
def rest (s : InputStream) : Bytes := s.file.drop s.pos

def advance (s : InputStream) (n : Nat) : InputStream :=
  { s with pos := s.pos + n }

def setstate (s : InputStream) (eofbit failbit : Bool) : InputStream :=
  { s with eofbit := s.eofbit || eofbit, failbit := s.failbit || failbit }

def seekg (s : InputStream) (target : Nat) : InputStream :=
  if s.failbit then { s with eofbit := false }
  else { s with eofbit := false, pos := target }

def isSign (b : UInt8) : Bool := b = 43 ∨ b = 45

/-- `operator>>` into an unsigned 64-bit integer that holds `old`; `space` is
the white space of the locale.  A minus sign negates modulo `2^64`. -/
def extract (s : InputStream) (space : UInt8 → Bool) (old : UInt64) :
    UInt64 × InputStream :=
  if !s.good then (old, s.setstate false true)
  else
    let s := s.advance (s.rest.takeWhile space).length
    if s.rest = [] then (old, s.setstate true true)
    else
      let sign := (s.rest.take 1).takeWhile isSign
      let digits := (s.rest.drop sign.length).takeWhile isDigit
      let s := s.advance (sign.length + digits.length)
      let eof := s.rest.isEmpty
      if digits = [] then (0, s.setstate eof true)
      else if 2 ^ 64 ≤ decimalValue digits then
        (UInt64.ofNat (2 ^ 64 - 1), s.setstate eof true)
      else
        let n := UInt64.ofNat (decimalValue digits)
        (if sign = [45] then -n else n, s.setstate eof false)

/-- `get` of one character. -/
def get (s : InputStream) : Option UInt8 × InputStream :=
  if !s.good then (none, s.setstate false true)
  else
    match s.rest with
    | [] => (none, s.setstate true true)
    | b :: _ => (some b, s.advance 1)

/-- `std::getline` into a string that holds `old`. -/
def getline (s : InputStream) (delim : UInt8) (old : Bytes) :
    Bytes × InputStream :=
  if !s.good then (old, s.setstate false true)
  else
    let line := s.rest.takeWhile (· ≠ delim)
    let s := s.advance line.length
    if s.rest = [] then (line, s.setstate true line.isEmpty)
    else (line, s.advance 1)

variable {s : InputStream}

theorem rest_advance (s : InputStream) (n : Nat) :
    (s.advance n).rest = s.rest.drop n :=
  List.drop_drop.symm

theorem good_advance (s : InputStream) (n : Nat) :
    (s.advance n).good = s.good := rfl

theorem failbit_of_good (h : s.good = true) : s.failbit = false := by
  simp only [good, Bool.and_eq_true, Bool.not_eq_true'] at h
  exact h.2

/-- Seeking in a good stream only moves it. -/
theorem seekg_eq (h : s.good = true) (target : Nat) :
    s.seekg target = { s with pos := target } := by
  obtain ⟨file, pos, eofbit, failbit, isOpen⟩ := s
  obtain ⟨rfl, rfl⟩ : eofbit = false ∧ failbit = false := by
    simpa [good] using h
  rfl

theorem takeWhile_digits {digits tail : Bytes} {c : UInt8}
    (hdigits : ∀ b ∈ digits, isDigit b = true) (hc : isDigit c = false) :
    (digits ++ c :: tail).takeWhile isDigit = digits := by
  rw [List.takeWhile_append_of_pos hdigits, List.takeWhile_cons_of_neg
    (by simp [hc]), List.append_nil]

/-- **A numeral that something else follows is read as its value.** -/
theorem extract_eq {space : UInt8 → Bool}
    (hspace : ∀ b, isDigit b = true → space b = false)
    (hgood : s.good = true) {digits tail : Bytes} {c : UInt8}
    (hrest : s.rest = digits ++ c :: tail) (hne : digits ≠ [])
    (hdigits : ∀ b ∈ digits, isDigit b = true) (hc : isDigit c = false)
    (hlt : decimalValue digits < 2 ^ 64) (old : UInt64) :
    s.extract space old =
      (UInt64.ofNat (decimalValue digits), s.advance digits.length) := by
  obtain ⟨b, more, rfl⟩ := List.exists_cons_of_ne_nil hne
  have hb := hdigits b List.mem_cons_self
  have hblank : s.rest.takeWhile space = [] := by
    rw [hrest, List.cons_append, List.takeWhile_cons_of_neg
      (by simp [hspace b hb])]
  have hsign : (s.rest.take 1).takeWhile isSign = [] := by
    have hnot : isSign b = false := by
      simp only [isDigit, decide_eq_true_eq] at hb
      simp only [isSign, decide_eq_false_iff_not]
      rintro (rfl | rfl)
      · exact absurd hb (by decide)
      · exact absurd hb (by decide)
    rw [hrest, List.cons_append, List.take_succ_cons,
      List.takeWhile_cons_of_neg (by simp [hnot])]
  have hfield : s.rest.takeWhile isDigit = b :: more := by
    rw [hrest, takeWhile_digits hdigits hc]
  have hnil : s.rest ≠ [] := by simp [hrest]
  have hleft : (s.advance (b :: more).length).rest = c :: tail := by
    rw [rest_advance, hrest, List.drop_left]
  have hstart : s.advance 0 = s := rfl
  have hflags : (s.advance (b :: more).length).setstate false false =
      s.advance (b :: more).length := by
    simp [setstate]
  simp only [extract, hgood, Bool.not_true, Bool.false_eq_true, if_false,
    hblank, List.length_nil, hstart, if_neg hnil, hsign, List.drop_zero,
    hfield, Nat.zero_add, hleft, List.isEmpty_cons, if_neg hne, hflags]
  rw [if_neg (Nat.not_le.mpr hlt), if_neg (by simp)]

theorem get_eq (hgood : s.good = true) {b : UInt8} {tail : Bytes}
    (hrest : s.rest = b :: tail) : s.get = (some b, s.advance 1) := by
  simp [get, hgood, hrest]

/-- **A line is read up to its delimiter, which is taken as well.** -/
theorem getline_eq (hgood : s.good = true) {delim : UInt8}
    {line tail : Bytes} (hrest : s.rest = line ++ delim :: tail)
    (hline : delim ∉ line) (old : Bytes) :
    s.getline delim old = (line, s.advance (line.length + 1)) := by
  have hread : s.rest.takeWhile (· ≠ delim) = line := by
    have hne : ∀ b ∈ line, decide (b ≠ delim) = true := fun b hb =>
      decide_eq_true fun heq => hline (heq ▸ hb)
    rw [hrest, List.takeWhile_append_of_pos hne, List.takeWhile_cons_of_neg
      (by simp), List.append_nil]
  have hleft : (s.advance line.length).rest = delim :: tail := by
    rw [rest_advance, hrest, List.drop_left]
  simp only [getline, hgood, Bool.not_true, Bool.false_eq_true, if_false,
    hread, hleft, if_neg (List.cons_ne_nil delim tail)]
  rfl

/-! ## No function changes the file -/

@[simp] theorem file_seekg (s : InputStream) (target : Nat) :
    (s.seekg target).file = s.file := by
  unfold seekg
  split <;> rfl

@[simp] theorem file_extract (s : InputStream) (space : UInt8 → Bool)
    (old : UInt64) : (s.extract space old).2.file = s.file := by
  unfold extract
  split
  · rfl
  · dsimp only
    repeat' split
    all_goals rfl

@[simp] theorem file_get (s : InputStream) : s.get.2.file = s.file := by
  unfold get
  split
  · rfl
  · split <;> rfl

@[simp] theorem file_getline (s : InputStream) (delim : UInt8) (old : Bytes) :
    (s.getline delim old).2.file = s.file := by
  unfold getline
  split
  · rfl
  · dsimp only
    split <;> rfl

end InputStream

end GoPrep.Verified
