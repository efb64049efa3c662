import ShellToC.Text.Basic

/-
  This file defines decimal numerals: how numbers are
  written, padded into columns, and read back within the
  range of a signed 64-bit word.

  Key definitions include:
    * `Text.ofNat`
    * `Text.ofInt`
    * `Text.toInt64?`
    * `Text.padLeft`
    * `Text.padRight`
-/

namespace ShellToC

namespace Text

------------------------------------------------------------
-- Writing Numbers
------------------------------------------------------------

/- The decimal digits of a natural number. -/
def ofNat
    (n : Nat) : Text :=
  Nat.toDigits 10 n

/- The decimal digits of an integer, behind a minus sign if negative. -/
def ofInt : Int → Text
  | .ofNat n => ofNat n
  | .negSucc n => '-' :: ofNat (n + 1)

/- Fill up with spaces on the left to the given width. -/
def padLeft
    (width : Nat)
    (text : Text) : Text :=
  List.replicate (width - text.length) ' ' ++ text

/- Fill up with spaces on the right to the given width. -/
def padRight
    (width : Nat)
    (text : Text) : Text :=
  text ++ List.replicate (width - text.length) ' '

------------------------------------------------------------
-- Reading Numbers
------------------------------------------------------------

/- The value of a non-empty run of ASCII digits. -/
def toNat?
    (digits : Text) : Option Nat :=
  if digits ≠ [] ∧ digits.all Char.isDigit then
    some (digits.foldl
      (fun value c => 10 * value + (c.toNat - '0'.toNat)) 0)
  else
    none

/- The value of digits behind at most one sign. -/
def toInt? : Text → Option Int
  | '-' :: digits => (toNat? digits).map fun n => -(n : Int)
  | '+' :: digits => (toNat? digits).map Int.ofNat
  | digits => (toNat? digits).map Int.ofNat

/- The value of a numeral that a signed 64-bit word can hold. -/
def toInt64?
    (text : Text) : Option Int :=
  (toInt? text).filter fun n =>
    Int64.minValue.toInt ≤ n ∧ n ≤ Int64.maxValue.toInt

end Text

end ShellToC
