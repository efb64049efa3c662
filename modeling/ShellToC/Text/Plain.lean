import ShellToC.Text.Basic

/-
  This file defines plain text: what is left of a text when
  everything that only steers a terminal is left out.

  An escape character opens a control sequence, and the kind
  of the sequence decides where it ends.  No character of a
  sequence is shown.  Layout characters are the exception
  while the sequence is still open to them: they are shown,
  and so is all that follows them, up to the next control
  character, from which on the sequence is read further.

  Key definitions include:
    * `ControlSequence`
    * `ControlSequence.next?`
    * `Display`
    * `Display.step`
    * `Text.plain`
-/

namespace ShellToC

------------------------------------------------------------
-- Control Characters
------------------------------------------------------------

namespace Text

/- Whether the code point of a character lies between two others. -/
def isWithin
    (low high : Nat)
    (c : Char) : Bool :=
  low ≤ c.toNat && c.toNat ≤ high

/- The control characters that lay out text, and are kept. -/
def isLayout
    (c : Char) : Bool :=
  c == '\t' || c == '\n' || c == '\x0c' || c == '\r'

/- The characters that are shown outside of control sequences. -/
def isVisible
    (c : Char) : Bool :=
  isWithin 0x20 0x7E c || isLayout c || 0x80 ≤ c.toNat

/- The character that opens a control sequence. -/
def isEscape
    (c : Char) : Bool :=
  c == '\x1b'

/- The characters that break off a control sequence. -/
def isCancel
    (c : Char) : Bool :=
  c == '\x18' || c == '\x1a'

/- Whether the byte that ends a string is among those of a character. -/
def hasTerminator
    (c : Char) : Bool :=
  (String.utf8EncodeChar c).contains 0x9C

end Text

------------------------------------------------------------
-- Control Sequences
------------------------------------------------------------

/- How far an unfinished control sequence has been read. -/
inductive ControlSequence where
  /- Only the escape character. -/
  | escape
  /- The middle of a short sequence. -/
  | intermediate
  /- The parameters of a sequence that a letter ends. -/
  | parameters
  /- A command to the system, which the bell ends. -/
  | systemCommand
  /- A device string before its head. -/
  | deviceStart
  /- The parameters in the head of a device string. -/
  | deviceParameters
  /- The end of the head of a device string. -/
  | deviceIntermediate
  /- The body of a string, which only a terminator ends. -/
  | body
  deriving DecidableEq, Repr

namespace ControlSequence

/- Whether layout characters inside of the sequence are shown. -/
def showsLayout : ControlSequence → Bool
  | .escape => true
  | .intermediate => true
  | .parameters => true
  | _ => false

/-
  The sequence that the character behind the escape opens.
  Most characters make up a whole sequence with it.
-/
def opened?
    (c : Char) : Option ControlSequence :=
  if Text.isWithin 0x20 0x2F c then
    some .intermediate
  else if c = '[' then
    some .parameters
  else if c = ']' then
    some .systemCommand
  else if c = 'P' then
    some .deviceStart
  else if c = 'X' ∨ c = '^' ∨ c = '_' then
    some .body
  else if Text.isWithin 0x30 0x7E c then
    none
  else
    some .escape

/- The sequence after one more character, or none if that ends it. -/
def next?
    (s : ControlSequence)
    (c : Char) : Option ControlSequence :=
  match s with
  | .escape => opened? c
  | .intermediate =>
      if Text.isWithin 0x30 0x7E c then none else some s
  | .parameters =>
      if Text.isWithin 0x40 0x7E c then none else some s
  | .systemCommand =>
      if c = '\x07' then none else some s
  | .deviceStart =>
      if Text.isWithin 0x20 0x2F c then
        some .deviceIntermediate
      else if Text.isWithin 0x30 0x3F c then
        some .deviceParameters
      else if Text.isWithin 0x40 0x7E c then
        some .body
      else
        some s
  | .deviceParameters =>
      if Text.isWithin 0x20 0x2F c then
        some .deviceIntermediate
      else if Text.isWithin 0x3C 0x7E c then
        some .body
      else
        some s
  | .deviceIntermediate =>
      if Text.isWithin 0x30 0x7E c then some .body else some s
  | .body =>
      if Text.hasTerminator c then none else some s

end ControlSequence

------------------------------------------------------------
-- Display
------------------------------------------------------------

/- What is being done with the characters of a text. -/
inductive Display where
  /-
    They are shown.  A sequence that layout has interrupted
    waits for the next control character.
  -/
  | shown (interrupted : Option ControlSequence)
  /- They belong to a control sequence. -/
  | hidden (sequence : ControlSequence)
  deriving DecidableEq, Repr

namespace Display

/- The display in which every text starts. -/
def start : Display :=
  .shown none

/- The display inside of a sequence, or behind it. -/
def ofSequence : Option ControlSequence → Display
  | none => .shown none
  | some sequence => .hidden sequence

/-
  Read one character: whether it is shown, and the display
  behind it.  A character beyond ASCII makes an interrupted
  sequence forgotten.
-/
def step
    (display : Display)
    (c : Char) : Bool × Display :=
  if Text.isEscape c then
    (false, .hidden .escape)
  else if Text.isCancel c then
    (false, .shown none)
  else
    match display with
    | .shown interrupted =>
        if 0x80 ≤ c.toNat then
          (true, .shown none)
        else if Text.isVisible c then
          (true, display)
        else
          (false, ofSequence interrupted)
    | .hidden sequence =>
        if sequence.showsLayout ∧ Text.isLayout c then
          (true, .shown (some sequence))
        else
          (false, ofSequence (sequence.next? c))

end Display

------------------------------------------------------------
-- Plain Text
------------------------------------------------------------

namespace Text

/- What is shown of a text that starts in a given display. -/
def plainFrom
    (display : Display) : Text → Text
  | [] => []
  | c :: rest =>
      let after := display.step c
      if after.1 then
        c :: plainFrom after.2 rest
      else
        plainFrom after.2 rest

/- What is shown of a text. -/
def plain
    (text : Text) : Text :=
  plainFrom .start text

end Text

end ShellToC
