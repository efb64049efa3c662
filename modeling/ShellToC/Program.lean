import ShellToC.Code.HelperText
import ShellToC.Lowering.Command
import ShellToC.Script.Statement

/-
  This file defines programs: what a whole script becomes,
  and the listing of its statements.

  The statements of a script are taken up in order and only
  once.  The helpers that they need are declared before the
  main function and defined behind it.

  Key definitions include:
    * `Draft.addStatement`
    * `Draft.ofScript`
    * `Program`
    * `Program.assemble`
    * `Program.ofScript`
    * `Listing`
    * `Listing.ofScript`
-/

namespace ShellToC

------------------------------------------------------------
-- Scripts
------------------------------------------------------------

/- What the log says about the statements of a script. -/
def Statement.countRecord
    (statements : List Statement) : Record :=
  ⟨.trace, "segmented " ++ Text.ofNat statements.length ++
    " statement(s)"⟩

namespace Draft

/- Find the form of a statement and write it. -/
def addStatement
    (draft : Draft)
    (statement : Statement) : Draft :=
  let command := Command.ofText statement.text
  (command.records.foldl note draft).addCommand
    statement.line command

/- Write the statements of a script and close its blocks. -/
def ofScript
    (file unit script : Text) : Draft :=
  let statements := Statement.ofScript script
  let draft :=
    (Draft.start file unit).note (Statement.countRecord statements)
  (statements.foldl addStatement draft).finish

/- What the log says about a finished draft. -/
def helperRecord
    (draft : Draft) : Record :=
  ⟨.debug, "translated " ++ draft.file ++ " with " ++
    Text.ofNat draft.usage.helpers.length ++ " runtime helper(s)"⟩

end Draft

------------------------------------------------------------
-- Programs
------------------------------------------------------------

/- A C program, and what is to be said about the script it comes from. -/
structure Program where
  source : Text
  usage : Usage
  diagnostics : Array Diagnostic
  log : Array Record
  deriving Repr

namespace Program

/- The declarations of the needed helpers, behind an empty line. -/
def declarations
    (usage : Usage) : Text :=
  if usage.helpers.isEmpty then
    []
  else
    '\n' :: usage.helpers.flatMap fun helper =>
      helper.declaration ++ ['\n']

/- The definitions of the needed helpers, each behind an empty line. -/
def definitions
    (usage : Usage) : Text :=
  usage.helpers.flatMap fun helper => '\n' :: helper.definition

/- The main function around the lines of the script. -/
def mainFunction
    (unit body : Text) : Text :=
  "\nint main(void)\n\x7b\n" ++ body ++ unit ++ "return 0;\n\x7d\n"

/- The text of a program. -/
def assemble
    (unit body : Text)
    (usage : Usage) : Text :=
  preamble ++ declarations usage ++ mainFunction unit body ++
    definitions usage

/- The program of a finished draft. -/
def ofDraft
    (draft : Draft) : Program where
  source := assemble draft.unit draft.body draft.usage
  usage := draft.usage
  diagnostics := draft.diagnostics
  log := draft.log.push draft.helperRecord

/- The program that a script becomes. -/
def ofScript
    (file unit script : Text) : Program :=
  ofDraft (Draft.ofScript file unit script)

/- The number of errors in the script. -/
def errorCount
    (program : Program) : Nat :=
  Diagnostic.errorCount program.diagnostics

/- Whether there is an error in the script. -/
def hasErrors
    (program : Program) : Bool :=
  program.diagnostics.any Diagnostic.isError

end Program

------------------------------------------------------------
-- Listings
------------------------------------------------------------

/- The statements of a script, each with the name of its form. -/
structure Listing where
  entries : List (Statement × Text)
  log : List Record
  deriving Repr

namespace Listing

/- List the statements of a script. -/
def ofScript
    (script : Text) : Listing :=
  let statements := Statement.ofScript script
  { entries := statements.map fun s =>
      (s, (Command.ofText s.text).form.name)
    log := Statement.countRecord statements ::
      statements.flatMap fun s => (Command.ofText s.text).records }

/- The line that lists a statement. -/
def renderEntry
    (entry : Statement × Text) : Text :=
  Text.padLeft 4 (Text.ofNat entry.1.line) ++ "  " ++
    Text.padRight 15 entry.2 ++ " " ++ entry.1.text ++ ['\n']

/- The text of a listing. -/
def render
    (listing : Listing) : Text :=
  listing.entries.flatMap renderEntry

end Listing

end ShellToC
