/-!
# Hexadecimal text

Addresses are printed in lower-case hexadecimal.  A table line has exactly
eight digits per address, and a zone's size has as few as it needs.
-/

namespace RegionGuard.Text

/-- The hexadecimal digits of `n`, most significant first and without leading
zeros; zero is written with one digit. -/
def hexDigits (n : Nat) : List Char :=
  Nat.toDigits 16 n

/-- Eight hexadecimal digits, padded with zeros in front. -/
def hexWord (n : UInt32) : String :=
  String.ofList ((hexDigits n.toNat).leftpad 8 '0')

/-- An address as messages show it: `0x` and eight digits. -/
def hexAddr (n : UInt32) : String :=
  "0x" ++ hexWord n

end RegionGuard.Text
