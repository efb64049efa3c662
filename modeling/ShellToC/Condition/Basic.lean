import ShellToC.Condition.Operand

/-
  This file defines conditions: what a test says about its
  operands, as a C expression that is true if it holds.

  Three words around a known operator compare, whatever the
  words are.  Otherwise a leading exclamation mark negates
  what follows, one word asks whether it is empty, and two
  words are an operator and its operand.

  Key definitions include:
    * `Comparison`
    * `Comparison.ofText?`
    * `Condition.ofWords`
    * `Condition.ofText`
-/

namespace ShellToC

------------------------------------------------------------
-- Comparisons
------------------------------------------------------------

/- A relation, and whether it is one of strings or of integers. -/
structure Comparison where
  ofStrings : Bool
  rel : Relation
  deriving DecidableEq, Repr

namespace Comparison

/- The comparison operators and what they mean. -/
def table : List (Text × Comparison) :=
  [("=", ⟨true, .eq⟩), ("==", ⟨true, .eq⟩), ("!=", ⟨true, .ne⟩),
   ("-eq", ⟨false, .eq⟩), ("-ne", ⟨false, .ne⟩),
   ("-gt", ⟨false, .gt⟩), ("-lt", ⟨false, .lt⟩),
   ("-ge", ⟨false, .ge⟩), ("-le", ⟨false, .le⟩)]

/- The comparison that an operator stands for. -/
def ofText?
    (op : Text) : Option Comparison :=
  table.lookup op

/-
  Compare two operands.  A comparison of strings becomes one
  of integers if either operand is a number of the program.
-/
def compare
    (comparison : Comparison)
    (left right : Operand) : BoolExpr :=
  match comparison.ofStrings, left.stringExpr?,
      right.stringExpr? with
  | true, some l, some r => .compareStrings comparison.rel l r
  | _, _, _ =>
      .compareInts comparison.rel left.intExpr right.intExpr

/- Compare two words. -/
def ofWords
    (comparison : Comparison)
    (left right : Text) : Except Fault BoolExpr :=
  match Operand.ofWord left, Operand.ofWord right with
  | .error fault, _ => .error fault
  | .ok _, .error fault => .error fault
  | .ok l, .ok r => .ok (comparison.compare l r)

/- The comparison that three words make, if they do. -/
def ofWords? : List Text → Option (Except Fault BoolExpr)
  | [left, op, right] =>
      (ofText? op).map fun comparison =>
        comparison.ofWords left right
  | _ => none

end Comparison

namespace Condition

------------------------------------------------------------
-- Operators with One Operand
------------------------------------------------------------

/- Ask a question about the path that an operand names. -/
def testPath
    (test : PathTest)
    (operand : Operand) : BoolExpr :=
  match operand.stringExpr? with
  | some path => .testPath test path
  | none => .constant false

/- Apply an operator to an operand. -/
def unary
    (op : Text)
    (operand : Operand) : Except Fault BoolExpr :=
  if op = "-n" then
    .ok operand.nonemptyExpr
  else if op = "-z" then
    .ok operand.nonemptyExpr.negate
  else if op = "-e" then
    .ok (testPath .anything operand)
  else if op = "-f" then
    .ok (testPath .file operand)
  else if op = "-d" then
    .ok (testPath .directory operand)
  else
    .error (.operator op)

------------------------------------------------------------
-- Tests
------------------------------------------------------------

/- What the words of a test say, or why they say nothing. -/
def ofWords : List Text → Except Fault BoolExpr
  | [] => .error (.construct "empty test expression")
  | [word] => (Operand.ofWord word).map Operand.nonemptyExpr
  | first :: rest =>
      match Comparison.ofWords? (first :: rest) with
      | some result => result
      | none =>
          if first = "!" then
            (ofWords rest).map .not
          else
            match rest with
            | [word] => (Operand.ofWord word).bind (unary first)
            | [op, _] => .error (.operator op)
            | _ =>
                .error (.construct
                  ("test expression with " ++
                    Text.ofNat (rest.length + 1) ++ " words"))

/- What the text of a test says. -/
def ofText
    (expr : Text) : Except Fault BoolExpr :=
  ofWords (Word.split expr)

end Condition

end ShellToC
