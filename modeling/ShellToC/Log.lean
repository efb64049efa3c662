import ShellToC.Text.Basic

/-
  This file defines the log: records of graded importance,
  and the filter that decides which of them are shown.

  Key definitions include:
    * `Level`
    * `Record`
    * `Record.render`
    * `Filter`
    * `Filter.ofText`
    * `Filter.admits`
-/

namespace ShellToC

------------------------------------------------------------
-- Levels
------------------------------------------------------------

/- How important a message is, the most important first. -/
inductive Level where
  | error
  | warn
  | info
  | debug
  | trace
  deriving DecidableEq, Repr

namespace Level

/- The levels in order of falling importance. -/
def all : List Level :=
  [.error, .warn, .info, .debug, .trace]

/- The name of a level. -/
def name : Level → Text
  | .error => "error"
  | .warn => "warn"
  | .info => "info"
  | .debug => "debug"
  | .trace => "trace"

/- The place of a level in the order of falling importance. -/
def rank : Level → Nat
  | .error => 1
  | .warn => 2
  | .info => 3
  | .debug => 4
  | .trace => 5

/- The level of a given name. -/
def ofName?
    (name : Text) : Option Level :=
  all.find? (·.name == name)

end Level

------------------------------------------------------------
-- Records
------------------------------------------------------------

/- One message of the log. -/
structure Record where
  level : Level
  message : Text
  deriving DecidableEq, Repr

namespace Record

/- The line that shows a record. -/
def render
    (r : Record) : Text :=
  r.level.name ++ ": " ++ r.message

end Record

------------------------------------------------------------
-- Filters
------------------------------------------------------------

/- The least important level shown, or nothing at all. -/
inductive Filter where
  | off
  | upTo (level : Level)
  deriving DecidableEq, Repr

namespace Filter

/- Without a setting, warnings and errors are shown. -/
def standard : Filter :=
  .upTo .warn

/-
  The filter that a setting names, in letters of either
  case.  Any other setting leaves the standard filter.
-/
def ofText
    (setting : Text) : Filter :=
  let setting := setting.map Char.toLower
  if setting = "off" then
    .off
  else
    match Level.ofName? setting with
    | some level => .upTo level
    | none => standard

/- Whether a filter shows a record. -/
def admits
    (filter : Filter)
    (r : Record) : Bool :=
  match filter with
  | .off => false
  | .upTo level => r.level.rank ≤ level.rank

end Filter

end ShellToC
