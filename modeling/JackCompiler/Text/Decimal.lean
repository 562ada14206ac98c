/-!
# Decimal numbers

Counts, operands and label numbers are written in decimal without leading zeros; integer constants
are read from digit runs that may have any number of them.
-/

namespace JackCompiler.Text

/-- A number in decimal, without leading zeros. -/
def decimal (number : Nat) : String :=
  String.ofList (Nat.toDigits 10 number)

/-- The value of a run of decimal digits. -/
def decimalValue (digits : List Char) : Nat :=
  digits.foldl (fun value digit => 10 * value + (digit.toNat - '0'.toNat)) 0

/-- A number is read back from its decimal. -/
@[simp] theorem decimalValue_decimal (number : Nat) :
    decimalValue (decimal number).toList = number := by
  rw [decimal, String.toList_ofList]
  exact Nat.ofDigitChars_ten_toDigits

/-- Numbers are told apart by their decimals. -/
theorem decimal_injective {left right : Nat} (same : decimal left = decimal right) :
    left = right := by
  rw [← decimalValue_decimal left, same, decimalValue_decimal]

/-- Decimals consist of digits. -/
theorem isDigit_of_mem_decimal {number : Nat} {character : Char}
    (member : character ∈ (decimal number).toList) : character.isDigit := by
  rw [decimal, String.toList_ofList] at member
  exact Nat.isDigit_of_mem_toDigits (by decide) (by decide) member

end JackCompiler.Text
