import ShellToC.Log
import ShellToC.Text.Decimal

/-
  This file defines diagnostics: what is reported about a
  script, at which line of it.

  Key definitions include:
    * `Diagnostic`
    * `Diagnostic.render`
    * `Diagnostic.record`
    * `Diagnostic.errorCount`
-/

namespace ShellToC

/- A report about a line of a script.  Line 0 stands for no line. -/
structure Diagnostic where
  level : Level
  line : Nat
  message : Text
  deriving DecidableEq, Repr

namespace Diagnostic

/- The text of a report. -/
def render
    (d : Diagnostic) : Text :=
  if d.line = 0 then
    d.message
  else
    "line " ++ Text.ofNat d.line ++ ": " ++ d.message

/- What the log says about a report on a file. -/
def record
    (file : Text)
    (d : Diagnostic) : Record :=
  ⟨d.level, file ++ ": " ++ d.render⟩

/- Whether the report is an error. -/
def isError
    (d : Diagnostic) : Bool :=
  d.level == .error

/- The number of errors among reports. -/
def errorCount
    (ds : Array Diagnostic) : Nat :=
  ds.countP isError

end Diagnostic

end ShellToC
