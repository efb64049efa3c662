import ShellToC.Draft
import ShellToC.Template.Quoting

/-
  This file defines the values that commands take, and the
  scopes in which values built for one statement live.

  A value that is built on the heap is declared in a scope
  of its own, and freed at the end of it.

  Key definitions include:
    * `Value`
    * `Value.ofTemplate`
    * `Value.expr`
    * `Event.withValues`
    * `Event.run`
-/

namespace ShellToC

------------------------------------------------------------
-- Values
------------------------------------------------------------

/- A string that is at hand, or one that is built for a statement. -/
inductive Value where
  | borrowed (e : StringExpr)
  | built (temp : Temporary) (call : FormatCall)
  deriving DecidableEq, Repr

namespace Value

/-
  The value of a template.  A single variable is at hand,
  and any other format is built in the given place.
-/
def ofTemplate
    (temp : Temporary) : Template → Value
  | .literal text => .borrowed (.literal text)
  | .format text args =>
      match (Template.format text args).single? with
      | some (.var name) => .borrowed (.variable name)
      | _ => .built temp (.ofTemplate text args)

/- The expression that denotes the value. -/
def expr : Value → StringExpr
  | .borrowed e => e
  | .built temp _ => .temporary temp

/- The lines that declare the value. -/
def declarations : Value → List Line
  | .borrowed _ => []
  | .built temp call => [.declareBuilt temp call]

/- The lines that free the value. -/
def releases : Value → List Line
  | .borrowed _ => []
  | .built temp _ => [.free temp]

end Value

------------------------------------------------------------
-- Scopes
------------------------------------------------------------

namespace Event

/- Write lines one after the other. -/
def lines
    (extra : Nat)
    (ls : List Line) : List Event :=
  ls.map (.write extra)

/- Write lines in a scope of their own. -/
def inScope
    (ls : List Line) : List Event :=
  .write 0 .openScope :: lines 1 ls ++ [.write 0 .close]

/- Write lines, in the scope of their values if any is built. -/
def withValues
    (values : List Value)
    (body : List Line) : List Event :=
  if (values.flatMap Value.declarations).isEmpty then
    lines 0 body
  else
    inScope (values.flatMap Value.declarations ++ body ++
      values.flatMap Value.releases)

/- Write lines in a scope, also if none of the values is built. -/
def withValuesInScope
    (values : List Value)
    (body : List Line) : List Event :=
  inScope (values.flatMap Value.declarations ++ body ++
    values.flatMap Value.releases)

------------------------------------------------------------
-- Commands
------------------------------------------------------------

/- Run a command and keep its status. -/
def run
    (command : Text) : List Event :=
  let value := Value.ofTemplate .command (.ofCommand command)
  withValues [value] [.run value.expr]

end Event

end ShellToC
