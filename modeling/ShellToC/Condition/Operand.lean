import ShellToC.Code.Expr
import ShellToC.Template.Quoting

/-
  This file defines operands: the words of a test whose
  values are looked at.

  An operand is one value or a literal.  A word that mixes
  the two has no place in a test.

  Key definitions include:
    * `Operand`
    * `Operand.ofWord`
    * `Operand.stringExpr?`
    * `Operand.intExpr`
-/

namespace ShellToC

------------------------------------------------------------
-- Operands
------------------------------------------------------------

/- A value that a test looks at. -/
inductive Operand where
  | value (arg : Argument)
  | literal (text : Text)
  deriving DecidableEq, Repr

namespace Operand

/- The operand that a word stands for. -/
def ofWord
    (word : Text) : Except Fault Operand :=
  match Template.ofWord word with
  | .literal text => .ok (.literal text)
  | template =>
      match template.single? with
      | some arg => .ok (.value arg)
      | none =>
          .error (.construct
            ("test operand \x60" ++ word ++
              "\x60 mixes text and variable references"))

/- The operand as a string, unless it is a number of the program. -/
def stringExpr? : Operand → Option StringExpr
  | .value (.var name) => some (.variable name)
  | .value .status => none
  | .value .backgroundPid => none
  | .literal text => some (.literal text)

/-
  The operand as an integer.  A literal that is a numeral is
  read here, and any other is left to the program.
-/
def intExpr : Operand → IntExpr
  | .value (.var name) => .ofString (.variable name)
  | .value .status => .status
  | .value .backgroundPid => .backgroundPid
  | .literal text =>
      match Text.toInt64? (Text.trim text) with
      | some n => .constant n
      | none => .ofString (.literal text)

/- Whether the operand is not empty. -/
def nonemptyExpr : Operand → BoolExpr
  | .value (.var name) => .nonempty name
  | .value .status => .constant true
  | .value .backgroundPid => .constant true
  | .literal text => .constant !text.isEmpty

end Operand

end ShellToC
