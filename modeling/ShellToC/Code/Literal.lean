import ShellToC.Text.Basic

/-
  This file defines string literals of C: how a text is
  written so that C reads it back.

  Quotes, backslashes and control characters are escaped,
  and a question mark behind another one too, so that no
  trigraph can form.

  Key definitions include:
    * `Literal.octal`
    * `Literal.escape`
    * `Literal.quote`
-/

namespace ShellToC

namespace Literal

/- A backslash and the three octal digits of a small number. -/
def octal
    (n : Nat) : Text :=
  ['\x5c', Nat.digitChar (n / 64 % 8),
   Nat.digitChar (n / 8 % 8), Nat.digitChar (n % 8)]

/- Whether the character is an ASCII control character. -/
def isControl
    (c : Char) : Bool :=
  c.toNat < 0x20 || c.toNat == 0x7F

/- A character as it is written inside a literal. -/
def escape
    (afterQuestion : Bool)
    (c : Char) : Text :=
  if c = '\x22' ∨ c = '\x5c' then
    ['\x5c', c]
  else if c = '\n' then
    ['\x5c', 'n']
  else if c = '\t' then
    ['\x5c', 't']
  else if c = '\x0d' then
    ['\x5c', 'r']
  else if c = '?' ∧ afterQuestion then
    ['\x5c', '?']
  else if isControl c then
    octal c.toNat
  else
    [c]

/- The inside of a literal. -/
def escapeFrom
    (afterQuestion : Bool) : Text → Text
  | [] => []
  | c :: rest =>
      escape afterQuestion c ++ escapeFrom (c == '?') rest

/- The literal that denotes a text. -/
def quote
    (text : Text) : Text :=
  '\x22' :: escapeFrom false text ++ ['\x22']

end Literal

end ShellToC
