import ShellToC.Text.Basic

/-
  This file defines templates: text in which values are
  still to be filled in.

  A template without values is a literal and is never read
  as a format.  A template with values is a format, in which
  each percent sign of the text is written twice, and the
  list of its arguments from left to right.

  Key definitions include:
    * `Argument`
    * `Template`
    * `Template.escapePercent`
    * `Template.single?`
    * `Template.join`
-/

namespace ShellToC

------------------------------------------------------------
-- Arguments
------------------------------------------------------------

/-
  A value to be filled in: that of a variable, the status of
  the last command, or the process of the last background
  job.
-/
inductive Argument where
  | var (name : Text)
  | status
  | backgroundPid
  deriving DecidableEq, Repr

namespace Argument

/- What stands for the argument in a format. -/
def directive : Argument → Text
  | .var _ => "%s"
  | .status => "%d"
  | .backgroundPid => "%d"

end Argument

------------------------------------------------------------
-- Templates
------------------------------------------------------------

/- Text with or without values to be filled in. -/
inductive Template where
  | literal (text : Text)
  | format (text : Text) (args : List Argument)
  deriving DecidableEq, Repr

namespace Template

/- Text as it is written in a format. -/
def escapePercent
    (text : Text) : Text :=
  Text.replaceChar '%' "%%" text

/- Whether there is nothing to fill in. -/
def isLiteral : Template → Bool
  | .literal _ => true
  | .format _ _ => false

/- The text of a literal, or the format. -/
def text : Template → Text
  | .literal text => text
  | .format text _ => text

/- The format that prints the template. -/
def formatText : Template → Text
  | .literal text => escapePercent text
  | .format text _ => text

/- The values to be filled in, from left to right. -/
def args : Template → List Argument
  | .literal _ => []
  | .format _ args => args

/- The argument of a template that is nothing but one argument. -/
def single? : Template → Option Argument
  | .format text [arg] =>
      if text = arg.directive then some arg else none
  | _ => none

theorem args_of_single?
    {template : Template}
    {arg : Argument}
    (h : template.single? = some arg) :
    template.args = [arg] := by
  unfold single? at h
  split at h
  · rename_i text other
    rw [args]
    split at h
    · cases h
      rfl
    · contradiction
  · contradiction

/- The templates in order, with a separator between neighbours. -/
def join
    (separator : Text)
    (parts : List Template) : Template :=
  if parts.all isLiteral then
    .literal (Text.joinWith separator (parts.map text))
  else
    .format
      (Text.joinWith (escapePercent separator)
        (parts.map formatText))
      (parts.flatMap args)

end Template

end ShellToC
