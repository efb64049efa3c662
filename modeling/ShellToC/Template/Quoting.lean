import ShellToC.Script.Word
import ShellToC.Template.Reference

/-
  This file defines the templates of quoted text: of a
  statement that is printed, of a word, and of a command
  that goes to the command interpreter.

  Key definitions include:
    * `Template.ofStatement`
    * `Template.ofWord`
    * `Template.prepare`
    * `Template.ofCommand`
-/

namespace ShellToC

namespace Template

------------------------------------------------------------
-- Statements and Words
------------------------------------------------------------

/-
  The template of a text from which one pair of quotes is
  taken away.  Nothing is resolved in single quotes.
-/
def ofStatement
    (text : Text) : Template :=
  if Word.isSingleQuoted text then
    .literal (Word.inner text)
  else if Word.isDoubleQuoted text then
    resolve .fill (Word.inner text)
  else
    resolve .fill text

/- The template of a word from which all quoting is taken away. -/
def ofWord
    (word : Text) : Template :=
  resolve .fill (Word.unquote word)

------------------------------------------------------------
-- Commands
------------------------------------------------------------

/-
  Write the rest of a command in reference form.  Quotes and
  backslashes stay, and what they protect is protected from
  being read as a reference.
-/
def prepareFrom : Word.Quote → Text → Text
  | _, [] => []
  | .single, c :: rest =>
      if c = '\x27' then
        c :: prepareFrom .none rest
      else
        Word.protect c ++ prepareFrom .single rest
  | _, ['\x5c'] => Word.protect '\x5c'
  | quote, '\x5c' :: c :: rest =>
      Word.protect '\x5c' ++ Word.protect c ++
        prepareFrom quote rest
  | .none, '\x27' :: rest => '\x27' :: prepareFrom .single rest
  | .none, '\x22' :: rest => '\x22' :: prepareFrom .double rest
  | .double, '\x22' :: rest => '\x22' :: prepareFrom .none rest
  | quote, c :: rest => c :: prepareFrom quote rest

/- Write a command in reference form. -/
def prepare
    (command : Text) : Text :=
  prepareFrom .none command

/-
  The template of a command.  Its quoting is kept for the
  command interpreter, which also expands the variables.
-/
def ofCommand
    (command : Text) : Template :=
  resolve .leave (prepare command)

end Template

end ShellToC
