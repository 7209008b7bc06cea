/-!
# Cutting text into pieces

Characters are classified by one rule, `isBlank`, and text is cut in two ways:
at every separator (`fields`, `lines`) or at every run of blanks (`words`).
Everything here works on `List Char`, so that a statement about a text can be
proved by induction over its characters.
-/

namespace RegionGuard.Text

/-- A blank is a character with the Unicode property `White_Space`: the ASCII
controls from tab to carriage return, the spaces of all widths, the next-line
control and the two Unicode line separators. -/
def isBlank (c : Char) : Bool :=
  (9 ≤ c.toNat && c.toNat ≤ 13) || c.toNat == 0x20 || c.toNat == 0x85 ||
    c.toNat == 0xa0 || c.toNat == 0x1680 ||
    (0x2000 ≤ c.toNat && c.toNat ≤ 0x200a) || c.toNat == 0x2028 ||
    c.toNat == 0x2029 || c.toNat == 0x202f || c.toNat == 0x205f ||
    c.toNat == 0x3000

/-- The text without the blanks at its front. -/
def trimFront (text : List Char) : List Char :=
  text.dropWhile isBlank

/-- The text without the blanks at either end. -/
def trim (text : List Char) : List Char :=
  (trimFront (trimFront text).reverse).reverse

/-- The pieces between the characters that satisfy `sep`.  There is one more
piece than there are separators, so an empty text has one empty piece. -/
def fields (sep : Char → Bool) : List Char → List (List Char)
  | [] => [[]]
  | c :: rest =>
    if sep c then [] :: fields sep rest
    else
      match fields sep rest with
      | [] => [[c]]
      | piece :: pieces => (c :: piece) :: pieces

/-- The lines of a text, which a line feed separates.  A carriage return before
the line feed stays in its line, where it is a blank like any other. -/
def lines (text : List Char) : List (List Char) :=
  fields (· == '\n') text

/-- The words of a text: its maximal runs of characters that are not blank. -/
def words (text : List Char) : List (List Char) :=
  (fields isBlank text).filter (!·.isEmpty)

/-- The parts before and after the first `sep`, if it occurs. -/
def splitFirst? (sep : Char) : List Char → Option (List Char × List Char)
  | [] => none
  | c :: rest =>
    if c = sep then some ([], rest)
    else (splitFirst? sep rest).map fun (front, back) => (c :: front, back)

end RegionGuard.Text
