import ShellToC.Text.Basic

/-
  This file defines faults: the reasons why a statement
  cannot be expressed in C.

  Key definitions include:
    * `Fault`
    * `Fault.message`
-/

namespace ShellToC

/- Why a statement cannot be expressed in C. -/
inductive Fault where
  /- The keyword closes or continues a block, but none is open. -/
  | unopened (keyword : Text)
  /- The block that the keyword opens is never closed. -/
  | unclosed (opener : Text)
  /- The construct has no counterpart in C. -/
  | construct (what : Text)
  /- The operator has no counterpart in C. -/
  | operator (op : Text)
  deriving DecidableEq, Repr

namespace Fault

/- The message that reports a fault. -/
def message : Fault → Text
  | .unopened keyword =>
      "\x60" ++ keyword ++ "\x60 has no matching open block"
  | .unclosed opener =>
      "block opened by \x60" ++ opener ++ "\x60 is never closed"
  | .construct what => "unsupported construct: " ++ what
  | .operator op => "unsupported operator \x60" ++ op ++ "\x60"

end Fault

end ShellToC
