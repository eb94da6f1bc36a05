/-!
# Hexadecimal digits

The digits in which digests are written out and in which JSON text escapes control characters.
-/

set_option autoImplicit false

namespace TxnPath.Text

/-- The lower-case hexadecimal digit of a number below 16. -/
def hexDigit (n : Nat) : Char := if n < 10 then Char.ofNat (48 + n) else Char.ofNat (87 + n)

/-- Different numbers have different digits. -/
theorem hexDigit_inj : ∀ m < 16, ∀ n < 16, hexDigit m = hexDigit n → m = n := by decide

end TxnPath.Text
