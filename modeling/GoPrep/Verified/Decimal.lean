import Mathlib.Algebra.Ring.Nat
import Mathlib.Data.List.Basic
import Mathlib.Order.Basic

/-!
# Decimal numerals as bytes

`decimal n` is the numeral of `n` in ASCII, most significant digit first and
without leading zeros; `decimalValue` reads a string of digits back.
-/

namespace GoPrep.Verified.Decimal

def isDigit (b : UInt8) : Bool := decide (48 ≤ b.toNat ∧ b.toNat ≤ 57)

def decimal (n : Nat) : List UInt8 :=
  (Nat.toDigits 10 n).map fun c => UInt8.ofNat c.toNat

/-- The value of a string of digits. -/
def decimalValue (digits : List UInt8) : Nat :=
  digits.foldl (fun n b => 10 * n + (b.toNat - 48)) 0

/-- A digit character is one byte. -/
theorem toNat_ofNat_of_isDigit {c : Char} (h : c.isDigit = true) :
    (UInt8.ofNat c.toNat).toNat = c.toNat ∧ 48 ≤ c.toNat ∧ c.toNat ≤ 57 := by
  have hbounds : 48 ≤ c.toNat ∧ c.toNat ≤ 57 := by
    simpa [Char.isDigit, UInt32.le_iff_toNat_le] using h
  refine ⟨?_, hbounds⟩
  rw [UInt8.toNat_ofNat']
  omega

theorem isDigit_of_mem_decimal {n : Nat} {b : UInt8} (h : b ∈ decimal n) :
    isDigit b = true := by
  obtain ⟨c, hc, rfl⟩ := List.mem_map.mp h
  obtain ⟨heq, hlow, hhigh⟩ := toNat_ofNat_of_isDigit
    (Nat.isDigit_of_mem_toDigits (by omega) (by omega) hc)
  rw [isDigit, heq]
  exact decide_eq_true ⟨hlow, hhigh⟩

theorem decimal_ne_nil (n : Nat) : decimal n ≠ [] := by
  simp [decimal, Nat.toDigits_ne_nil]

/-- **Reading a numeral back gives the number.** -/
theorem decimalValue_decimal (n : Nat) : decimalValue (decimal n) = n := by
  have hfold : ∀ (cs : List Char) (m : Nat),
      (∀ c ∈ cs, c.isDigit = true) →
      (cs.map fun c => UInt8.ofNat c.toNat).foldl
          (fun n b => 10 * n + (b.toNat - 48)) m =
        Nat.ofDigitChars 10 cs m := by
    intro cs
    induction cs with
    | nil => intro m _; rfl
    | cons c cs ih =>
        intro m hcs
        have hc := toNat_ofNat_of_isDigit (hcs c List.mem_cons_self)
        rw [List.map_cons, List.foldl_cons, hc.1, Nat.ofDigitChars_cons,
          ih _ fun c' hc' => hcs c' (List.mem_cons_of_mem c hc')]
        rfl
  rw [decimalValue, decimal, hfold _ 0 fun c hc =>
    Nat.isDigit_of_mem_toDigits (by omega) (by omega) hc,
    Nat.ofDigitChars_ten_toDigits]

/-! ## Numerals of 64-bit numbers -/

theorem decimalValue_toNat_lt (n : UInt64) :
    decimalValue (decimal n.toNat) < 2 ^ 64 := by
  rw [decimalValue_decimal]
  exact n.toNat_lt

theorem ofNat_decimalValue_toNat (n : UInt64) :
    UInt64.ofNat (decimalValue (decimal n.toNat)) = n := by
  rw [decimalValue_decimal, UInt64.ofNat_toNat]

end GoPrep.Verified.Decimal
