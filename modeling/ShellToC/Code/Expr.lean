import ShellToC.Arithmetic.Token
import ShellToC.Code.Helper
import ShellToC.Code.Literal
import ShellToC.Template.Basic
import ShellToC.Text.Decimal

/-
  This file defines the C expressions that generated
  programs are made of, by what they denote: strings,
  integers, truth values, arithmetic and formatted text.

  Each kind of expression has its text and the helpers that
  it calls, in the order in which they are asked for.

  Key definitions include:
    * `StringExpr`
    * `IntExpr`
    * `BoolExpr`
    * `ArithExpr`
    * `FormatCall`
-/

namespace ShellToC

------------------------------------------------------------
-- Calls
------------------------------------------------------------

/- The call of a function with the given text as its arguments. -/
def callText
    (function arguments : Text) : Text :=
  function ++ "(" ++ arguments ++ ")"

/- The variable that holds the status of the last command. -/
def statusVariable : Text :=
  "last_status"

/- The variable that holds the process of the last background job. -/
def jobVariable : Text :=
  "last_bg_pid"

------------------------------------------------------------
-- Strings
------------------------------------------------------------

/- A local variable that holds text for one statement. -/
inductive Temporary where
  | command
  | stage (index : Nat)
  | directory
  | value
  | output
  deriving DecidableEq, Repr

namespace Temporary

/- The name of the variable. -/
def name : Temporary → Text
  | .command => "sh_cmd"
  | .stage index => "sh_cmd_" ++ Text.ofNat index
  | .directory => "sh_dir"
  | .value => "sh_value"
  | .output => "sh_out"

end Temporary

/- An expression that denotes a string. -/
inductive StringExpr where
  | literal (text : Text)
  | variable (name : Text)
  | temporary (temp : Temporary)
  deriving DecidableEq, Repr

namespace StringExpr

/- The text of the expression. -/
def render : StringExpr → Text
  | .literal text => Literal.quote text
  | .variable name =>
      callText Helper.var.name (Literal.quote name)
  | .temporary temp => temp.name

/- The helpers that the expression calls. -/
def needs : StringExpr → List Helper
  | .literal _ => []
  | .variable _ => [.var]
  | .temporary _ => []

end StringExpr

------------------------------------------------------------
-- Integers
------------------------------------------------------------

/- An expression that denotes an integer. -/
inductive IntExpr where
  | constant (value : Int)
  | ofString (e : StringExpr)
  | status
  | backgroundPid
  deriving DecidableEq, Repr

namespace IntExpr

/- The text of the expression. -/
def render : IntExpr → Text
  | .constant value => Text.ofInt value ++ "L"
  | .ofString e => callText Helper.int.name e.render
  | .status => statusVariable
  | .backgroundPid => jobVariable

/- The helpers that the expression calls. -/
def needs : IntExpr → List Helper
  | .constant _ => []
  | .ofString e => e.needs ++ [.int]
  | .status => []
  | .backgroundPid => []

end IntExpr

------------------------------------------------------------
-- Truth Values
------------------------------------------------------------

/- A relation between two values of the same kind. -/
inductive Relation where
  | eq
  | ne
  | gt
  | lt
  | ge
  | le
  deriving DecidableEq, Repr

namespace Relation

/- The C operator of a relation. -/
def symbol : Relation → Text
  | .eq => "=="
  | .ne => "!="
  | .gt => ">"
  | .lt => "<"
  | .ge => ">="
  | .le => "<="

end Relation

/- A question about what a path names. -/
inductive PathTest where
  | anything
  | file
  | directory
  deriving DecidableEq, Repr

namespace PathTest

/- The helper that answers the question. -/
def helper : PathTest → Helper
  | .anything => .pathExists
  | .file => .isFile
  | .directory => .isDir

end PathTest

/- An expression that denotes a truth value. -/
inductive BoolExpr where
  | constant (value : Bool)
  | nonempty (name : Text)
  | testPath (test : PathTest) (path : StringExpr)
  | compareStrings (rel : Relation) (left right : StringExpr)
  | compareInts (rel : Relation) (left right : IntExpr)
  | not (e : BoolExpr)
  deriving DecidableEq, Repr

namespace BoolExpr

/- The text of the expression. -/
def render : BoolExpr → Text
  | .constant value => if value then "1" else "0"
  | .nonempty name =>
      "(" ++ (StringExpr.variable name).render ++
        "[0] != \x27\x5c0\x27)"
  | .testPath test path => callText test.helper.name path.render
  | .compareStrings rel left right =>
      "(" ++
        callText "strcmp" (left.render ++ ", " ++ right.render) ++
        " " ++ rel.symbol ++ " 0)"
  | .compareInts rel left right =>
      "(" ++ left.render ++ " " ++ rel.symbol ++ " " ++
        right.render ++ ")"
  | .not e => "!" ++ e.render

/- The helpers that the expression calls. -/
def needs : BoolExpr → List Helper
  | .constant _ => []
  | .nonempty _ => [.var]
  | .testPath test path => path.needs ++ [test.helper]
  | .compareStrings _ left right => left.needs ++ right.needs
  | .compareInts _ left right => left.needs ++ right.needs
  | .not e => e.needs

/- The opposite of an expression.  Constants are decided here. -/
def negate : BoolExpr → BoolExpr
  | .constant value => .constant !value
  | e => .not e

end BoolExpr

------------------------------------------------------------
-- Arithmetic
------------------------------------------------------------

namespace Token

/- The C text of a token. -/
def render : Token → Text
  | .var name => (IntExpr.ofString (.variable name)).render
  | .status => statusVariable
  | .backgroundPid => jobVariable
  | .number numeral => numeral
  | .operator op => [op.symbol]
  | .leftParen => "("
  | .rightParen => ")"

/- The helpers that the C text of a token calls. -/
def needs : Token → List Helper
  | .var name => (IntExpr.ofString (.variable name)).needs
  | _ => []

end Token

/-
  Tokens that stand in C as they stand in the script.  That
  they make up an expression is left to the C compiler.
-/
structure ArithExpr where
  tokens : List Token
  deriving DecidableEq, Repr

namespace ArithExpr

/- The text of the expression, in parentheses. -/
def render
    (e : ArithExpr) : Text :=
  "(" ++ Text.joinWith " " (e.tokens.map Token.render) ++ ")"

/- The helpers that the expression calls. -/
def needs
    (e : ArithExpr) : List Helper :=
  e.tokens.flatMap Token.needs

/- Read an arithmetic expression, which must not be empty. -/
def ofText
    (text : Text) : Except Fault ArithExpr :=
  match Token.ofText text with
  | .error fault => .error fault
  | .ok [] => .error (.construct "empty arithmetic expression")
  | .ok tokens => .ok ⟨tokens⟩

end ArithExpr

------------------------------------------------------------
-- Formatted Text
------------------------------------------------------------

/- A value that is filled into a format. -/
inductive FormatArg where
  | string (e : StringExpr)
  | status
  | backgroundPid
  deriving DecidableEq, Repr

namespace FormatArg

/- The value that an argument of a template stands for. -/
def ofArgument : Argument → FormatArg
  | .var name => .string (.variable name)
  | .status => .status
  | .backgroundPid => .backgroundPid

/- The text of the value. -/
def render : FormatArg → Text
  | .string e => e.render
  | .status => statusVariable
  | .backgroundPid => jobVariable

/- The helpers that the value calls. -/
def needs : FormatArg → List Helper
  | .string e => e.needs
  | .status => []
  | .backgroundPid => []

end FormatArg

/- A format and the values that are filled into it. -/
structure FormatCall where
  format : Text
  args : List FormatArg
  deriving DecidableEq, Repr

namespace FormatCall

/- The call that fills the arguments of a template into its format. -/
def ofTemplate
    (format : Text)
    (args : List Argument) : FormatCall :=
  ⟨format, args.map .ofArgument⟩

/- The call that copies a text as it is. -/
def copy
    (text : Text) : FormatCall :=
  ⟨"%s", [.string (.literal text)]⟩

/- The text of the call of a function that takes a format. -/
def render
    (function : Text)
    (call : FormatCall) : Text :=
  callText function
    (Text.joinWith ", "
      (Literal.quote call.format :: call.args.map FormatArg.render))

/- The helpers that the arguments call. -/
def argNeeds
    (call : FormatCall) : List Helper :=
  call.args.flatMap FormatArg.needs

/- The text of the call that builds a string. -/
def renderBuild
    (call : FormatCall) : Text :=
  call.render Helper.format.name

/- The helpers that the call that builds a string needs. -/
def buildNeeds
    (call : FormatCall) : List Helper :=
  .format :: call.argNeeds

/- The text of the call that prints. -/
def renderPrint
    (call : FormatCall) : Text :=
  call.render "printf"

end FormatCall

end ShellToC
