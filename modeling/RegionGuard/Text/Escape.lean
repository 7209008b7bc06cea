import RegionGuard.Text.Hex

/-!
# Text without control characters

A message may quote text that comes from outside.  Characters that a terminal
acts on are written as escapes there, so that a quoted text cannot move the
cursor or change colours.  Other controls, such as tabs and line feeds, are
kept.
-/

namespace RegionGuard.Text

/-- The ASCII controls that a terminal acts on: bell, backspace, form feed, escape
and delete. -/
def terminalControls : List Char :=
  ['\x07', '\x08', '\x0c', '\x1b', '\x7f']

/-- A character as a message shows it.  A terminal control of ASCII is written with
two hexadecimal digits, a control behind ASCII with its number in braces. -/
def escapeChar (c : Char) : List Char :=
  if c ∈ terminalControls then '\\' :: 'x' :: (hexDigits c.toNat).leftpad 2 '0'
  else if 0x80 ≤ c.toNat ∧ c.toNat ≤ 0x9f then
    '\\' :: 'u' :: '\x7b' :: (hexDigits c.toNat ++ ['\x7d'])
  else [c]

/-- A text as a message shows it. -/
def escapeControls (text : List Char) : List Char :=
  text.flatMap escapeChar

end RegionGuard.Text
