/-! Decimal numerals in ASCII digits, and those that fit in 64 bits. -/
namespace DerivationReplay.Text

/-- Leading zeros are allowed; no digits at all are not. -/
def natural? (digits : List Char) : Option Nat :=
  if !digits.isEmpty && digits.all Char.isDigit then some (Nat.ofDigitChars 10 digits 0) else none

def word64OfNat? (value : Nat) : Option UInt64 :=
  if value < UInt64.size then some (UInt64.ofNat value) else none

def word64? (digits : List Char) : Option UInt64 := (natural? digits).bind word64OfNat?

theorem natural_of_numeral (value : Nat) : natural? (toString value).toList = some value := by
  have digits : (toString value).toList = Nat.toDigits 10 value := by
    rw [Nat.toString_eq_repr, Nat.toList_repr]
  have all_digits : (Nat.toDigits 10 value).all Char.isDigit :=
    List.all_eq_true.mpr fun _ member => Nat.isDigit_of_mem_toDigits (by decide) (by decide) member
  have some_digit : (Nat.toDigits 10 value).isEmpty = false := by simp
  rw [digits, natural?, some_digit, all_digits,
    Nat.ofDigitChars_toDigits (by decide) (by decide)]
  rfl

theorem natural_all_digits (digits : List Char) (value : Nat)
    (read : natural? digits = some value) :
    ∀ c ∈ digits, c.isDigit := by
  unfold natural? at read
  split at read
  · simp_all
  · cases read

theorem word64_of_nat (word : UInt64) : word64OfNat? word.toNat = some word := by
  simp [word64OfNat?, word.toNat_lt_size]

theorem word64_of_numeral (word : UInt64) : word64? (toString word).toList = some word := by
  have value : toString word = toString word.toNat := rfl
  rw [word64?, value, natural_of_numeral, Option.bind_some, word64_of_nat]

end DerivationReplay.Text
