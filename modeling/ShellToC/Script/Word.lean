import ShellToC.Script.Mark

/-
  This file defines words: how text is cut at bare blanks,
  and what a word says once its quoting is taken away.

  Text without quoting is written in reference form: a
  dollar sign or a backslash that stands for itself has a
  backslash before it, so that only the others can start a
  reference.

  Key definitions include:
    * `Word.split`
    * `Word.protect`
    * `Word.unquote`
    * `Word.isSingleQuoted`
-/

namespace ShellToC

namespace Word

------------------------------------------------------------
-- Cutting Text into Words
------------------------------------------------------------

/- The non-empty runs between bare blanks, quotes included. -/
def split
    (text : Text) : List Text :=
  (((Mark.scan text).splitOnP Mark.isBareBlank).map
    Mark.chars).filter (!·.isEmpty)

/- Whether the text starts and ends with a single quote. -/
def isSingleQuoted
    (text : Text) : Bool :=
  text.length ≥ 2 &&
    text.head? == some '\x27' && text.getLast? == some '\x27'

/- Whether the text starts and ends with a double quote. -/
def isDoubleQuoted
    (text : Text) : Bool :=
  text.length ≥ 2 &&
    text.head? == some '\x22' && text.getLast? == some '\x22'

/- The text between the first and the last character. -/
def inner
    (text : Text) : Text :=
  text.tail.dropLast

------------------------------------------------------------
-- Reference Form
------------------------------------------------------------

/- A character that stands for itself, in reference form. -/
def protect
    (c : Char) : Text :=
  if c = '$' ∨ c = '\x5c' then ['\x5c', c] else [c]

------------------------------------------------------------
-- Taking Quoting Away
------------------------------------------------------------

/- The quotes that are open inside a word. -/
inductive Quote where
  | none
  | single
  | double
  deriving DecidableEq, Repr

/-
  What a backslash makes of the next character.  In double
  quotes it stays, unless the next character is special
  there.
-/
def unescape
    (quote : Quote)
    (c : Char) : Text :=
  if quote ≠ .double ∨
      c = '$' ∨ c = '\x22' ∨ c = '\x5c' ∨ c = '\x60' then
    protect c
  else
    protect '\x5c' ++ protect c

/- Take the quoting away from the rest of a word. -/
def unquoteFrom : Quote → Text → Text
  | _, [] => []
  | .single, c :: rest =>
      if c = '\x27' then
        unquoteFrom .none rest
      else
        protect c ++ unquoteFrom .single rest
  | _, ['\x5c'] => protect '\x5c'
  | quote, '\x5c' :: c :: rest =>
      unescape quote c ++ unquoteFrom quote rest
  | .none, '\x27' :: rest => unquoteFrom .single rest
  | .none, '\x22' :: rest => unquoteFrom .double rest
  | .double, '\x22' :: rest => unquoteFrom .none rest
  | quote, c :: rest => c :: unquoteFrom quote rest

/- The text that a word stands for, in reference form. -/
def unquote
    (word : Text) : Text :=
  unquoteFrom .none word

end Word

end ShellToC
