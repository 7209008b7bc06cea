import RegionGuard.Log.Pattern.Reader

/-!
# What the field of a message is compared with

A value is a number or a pattern.  Numbers come first, because a number may have a
plus sign, which cannot start a pattern.  A number is a decimal, with an exponent or
without one, or one of the words for infinity and for what is no number.
-/

namespace RegionGuard.Log

/-- Whether a text consists of decimal digits, at least one. -/
def isDigits (text : List Char) : Bool :=
  !text.isEmpty && text.all Char.isDigit

/-- The text without the sign at its front. -/
def dropSign : List Char → List Char
  | '+' :: rest => rest
  | '-' :: rest => rest
  | rest => rest

/-- Whether a text is an exponent or nothing. -/
def isExponent : List Char → Bool
  | [] => true
  | c :: rest => (c == 'e' || c == 'E') && isDigits (dropSign rest)

/-- Whether a text is a decimal without a sign: digits, with a point among them or at
either end, and perhaps an exponent. -/
def isDecimal (text : List Char) : Bool :=
  match text.dropWhile Char.isDigit with
  | '.' :: rest =>
    (isDigits (text.takeWhile Char.isDigit) || isDigits (rest.takeWhile Char.isDigit)) &&
      isExponent (rest.dropWhile Char.isDigit)
  | rest => isDigits (text.takeWhile Char.isDigit) && isExponent rest

/-- The words for infinity and for what is no number. -/
def numberWords : List String := ["inf", "infinity", "nan"]

/-- Whether a text is a number, in which the case of the letters does not matter. -/
def isNumeral (text : List Char) : Bool :=
  isDecimal (dropSign text) ||
    numberWords.contains (String.ofList ((dropSign text).map Char.toLower))

/-- Whether the field of a message can be compared with a text. -/
def isValue (text : List Char) : Bool :=
  isNumeral text || Pattern.isWellFormed text

end RegionGuard.Log
