import Mathlib.Data.List.Basic
import Recurrence.Text.Numeral

namespace Recurrence.Text

/-! Numbers that were written can be read again. -/

theorem isPlainDigit_of_isDigit {c : Char} (digit : c.isDigit = true) : isPlainDigit c = true := by
  simpa [isPlainDigit, Char.isDigit, Char.le_def] using digit

theorem toNat_of_isPlainDigit {c : Char} (digit : isPlainDigit c = true) :
    48 ≤ c.toNat ∧ c.toNat ≤ 57 := by
  simp only [isPlainDigit, Bool.and_eq_true, decide_eq_true_eq] at digit
  exact digit

theorem digitValue?_of_isPlainDigit {c : Char} (digit : isPlainDigit c = true) :
    digitValue? c = some (c.toNat - '0'.toNat) := by
  have bounds : 48 ≤ c.toNat ∧ c.toNat < 58 :=
    (toNat_of_isPlainDigit digit).imp_right Nat.lt_succ_of_le
  simp [digitValue?, zeros, bounds]

theorem isDigit_of_isPlainDigit {c : Char} (digit : isPlainDigit c = true) : isDigit c = true := by
  rw [isDigit, digitValue?_of_isPlainDigit digit, Option.isSome_some]

theorem digitsValue_of_isPlainDigit {digits : List Char}
    (plain : ∀ c ∈ digits, isPlainDigit c = true) :
    digitsValue digits = Nat.ofDigitChars 10 digits 0 := by
  rw [digitsValue, Nat.ofDigitChars_eq_foldl]
  refine List.foldl_ext _ _ _ fun value c member => ?_
  rw [digitValue?_of_isPlainDigit (plain c member), Option.getD_some]

theorem isPlainDigit_of_mem_decimal {n : Nat} {c : Char} (member : c ∈ decimal n) :
    isPlainDigit c = true :=
  isPlainDigit_of_isDigit (Nat.isDigit_of_mem_toDigits (by decide) (by decide) member)

theorem readDigits_eq_error_iff {digits : List Char} :
    (∃ fault, readDigits digits = .error fault) ↔ maxDigits < digits.length := by
  unfold readDigits
  split
  · rename_i short
    exact iff_of_false nofun (Nat.not_lt.mpr short)
  · rename_i long
    exact iff_of_true ⟨_, rfl⟩ (Nat.not_le.mp long)

theorem digitsValue_decimal (n : Nat) : digitsValue (decimal n) = n := by
  rw [digitsValue_of_isPlainDigit fun c => isPlainDigit_of_mem_decimal, decimal,
    Nat.ofDigitChars_ten_toDigits]

theorem readDigits_decimal {n : Nat} (short : (decimal n).length ≤ maxDigits) :
    readDigits (decimal n) = .ok n := by
  rw [readDigits, if_pos short, digitsValue_decimal]

theorem decimal_length_le {n : Nat} (below : n < 100) : (decimal n).length ≤ 2 :=
  (Nat.length_toDigits_le_iff (by decide) (by decide)).mpr below

theorem decimal_injective {n m : Nat} (same : decimal n = decimal m) : n = m := by
  have read := congrArg (Nat.ofDigitChars 10 · 0) same
  simpa only [decimal, Nat.ofDigitChars_ten_toDigits] using read

theorem not_mem_decimal {c : Char} (notDigit : isPlainDigit c = false) (n : Nat) :
    c ∉ decimal n := by
  intro member
  rw [isPlainDigit_of_mem_decimal member] at notDigit
  cases notDigit

theorem hyphen_not_mem_decimal (n : Nat) : '-' ∉ decimal n :=
  not_mem_decimal (by decide) n

theorem signed_injective {n m : Int} (same : signed n = signed m) : n = m := by
  have apart {n m : Nat} (same : '-' :: decimal n = decimal m) : False :=
    hyphen_not_mem_decimal m (same ▸ List.mem_cons_self)
  unfold signed at same
  split at same <;> split at same
  · have := decimal_injective (List.cons.inj same).2
    omega
  · exact (apart same).elim
  · exact (apart same.symm).elim
  · have := decimal_injective same
    omega

theorem signed_natCast (n : Nat) : signed n = decimal n := by
  simp [signed]

/-! Zeros that are filled in -/

theorem padded_natCast (width n : Nat) :
    padded width n = List.replicate (width - (decimal n).length) '0' ++ decimal n := by
  have nonnegative : ¬ (n : Int) < 0 := Int.not_lt.mpr (Int.natCast_nonneg n)
  simp only [padded, if_neg nonnegative, List.length_nil, Nat.sub_zero, List.nil_append,
    Int.natAbs_natCast]

theorem digitsValue_zeros (count : Nat) (digits : List Char) :
    digitsValue (List.replicate count '0' ++ digits) = digitsValue digits := by
  induction count with
  | zero => rfl
  | succ count ih =>
      rw [List.replicate_succ, List.cons_append, digitsValue, List.foldl_cons]
      exact ih

/-- A number is read back from its digits, whether or not zeros were filled in before them. -/
theorem digitsValue_padded (width n : Nat) : digitsValue (padded width n) = n := by
  rw [padded_natCast, digitsValue_zeros, digitsValue_decimal]

theorem not_mem_padded {c : Char} (notDigit : isPlainDigit c = false) (width n : Nat) :
    c ∉ padded width n := by
  rw [padded_natCast, List.mem_append, not_or]
  refine ⟨fun filling => ?_, not_mem_decimal notDigit n⟩
  rw [List.eq_of_mem_replicate filling] at notDigit
  cases notDigit

end Recurrence.Text
