import ShellToC.Proofs.Directives
import ShellToC.Text.Decimal

/-
  This file fills templates in: the text that a template
  stands for in an environment.

  A format is read part by part, and each directive takes
  the next value.  A value that does not fit its directive,
  or one too few or too many, leaves the format without a
  text.  A template that denotes atoms has the text of its
  atoms.

  Key definitions include:
    * `Environment`
    * `FormatPart.filled?`
    * `Template.filled?`

  Main declarations:
    * `Template.Denotes.filled?_eq`
-/

namespace ShellToC

------------------------------------------------------------
-- Environments
------------------------------------------------------------

/-
  What values are filled in: the variables that are set, the
  status of the last command, and the process of the last
  background job.
-/
structure Environment where
  var : Text → Option Text
  status : Int32
  backgroundPid : Int32

/- The text of a value.  A variable that is not set is empty. -/
def Argument.textIn
    (env : Environment) : Argument → Text
  | .var name => (env.var name).getD []
  | .status => Text.ofInt env.status.toInt
  | .backgroundPid => Text.ofInt env.backgroundPid.toInt

/- The text of an atom. -/
def Atom.textIn
    (env : Environment) : Atom → Text
  | .char c => [c]
  | .value arg => arg.textIn env

/- The text of atoms. -/
def Atom.textOf
    (env : Environment)
    (atoms : List Atom) : Text :=
  atoms.flatMap (textIn env)

@[simp] theorem Atom.textOf_nil
    (env : Environment) :
    textOf env [] = [] := rfl

@[simp] theorem Atom.textOf_append
    (env : Environment)
    (a b : List Atom) :
    textOf env (a ++ b) = textOf env a ++ textOf env b :=
  List.flatMap_append

@[simp] theorem Atom.textOf_map_char
    (env : Environment)
    (text : Text) :
    textOf env (text.map .char) = text := by
  simp [textOf, List.flatMap_map, textIn]

------------------------------------------------------------
-- Formats
------------------------------------------------------------

/-
  The text of a format.  Each directive takes the next
  value, which must be one of its kind.
-/
def FormatPart.filled?
    (env : Environment) :
    List FormatPart → List Argument → Option Text
  | [], [] => some []
  | .char c :: parts, args => (filled? env parts args).map (c :: ·)
  | .fill conversion :: parts, arg :: args =>
      if conversion = arg.conversion then
        (filled? env parts args).map (arg.textIn env ++ ·)
      else
        none
  | _, _ => none

/- The parts of atoms are filled in with their values. -/
theorem FormatPart.filled?_map_part
    (env : Environment)
    (atoms : List Atom) :
    filled? env (atoms.map Atom.part)
        (atoms.filterMap Atom.value?) =
      some (Atom.textOf env atoms) := by
  induction atoms with
  | nil => rfl
  | cons atom atoms ih =>
      cases atom with
      | char c =>
          have hValues : (Atom.char c :: atoms).filterMap
              Atom.value? = atoms.filterMap Atom.value? := rfl
          rw [List.map_cons, Atom.part, filled?, hValues, ih]
          rfl
      | value arg =>
          have hValues : (Atom.value arg :: atoms).filterMap
              Atom.value? =
                arg :: atoms.filterMap Atom.value? := rfl
          rw [List.map_cons, Atom.part, hValues, filled?, if_pos rfl,
            ih]
          rfl

------------------------------------------------------------
-- Templates
------------------------------------------------------------

namespace Template

/- The text that a template stands for. -/
def filled?
    (env : Environment) : Template → Option Text
  | .literal text => some text
  | .format text args =>
      (FormatPart.ofFormat? text).bind fun parts =>
        FormatPart.filled? env parts args

/- A template stands for the text of the atoms that it denotes. -/
theorem Denotes.filled?_eq
    {template : Template}
    {atoms : List Atom}
    (h : template.Denotes atoms)
    (env : Environment) :
    template.filled? env = some (Atom.textOf env atoms) := by
  cases template with
  | literal text =>
      rw [show atoms = text.map .char from h,
        Atom.textOf_map_char]
      rfl
  | format text args =>
      rw [filled?, h.1, ← h.2.1]
      exact FormatPart.filled?_map_part env atoms

end Template

end ShellToC
