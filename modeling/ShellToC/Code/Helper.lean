import ShellToC.Log

/-
  This file defines the helpers of generated programs: small
  C functions that are added to a program only if it needs
  them, and the set of those that it needs.

  Key definitions include:
    * `Helper`
    * `Helper.all`
    * `Helper.name`
    * `Helper.required`
    * `Usage`
    * `Usage.newcomers`
    * `Usage.require`
    * `Usage.helpers`
-/

namespace ShellToC

------------------------------------------------------------
-- Helpers
------------------------------------------------------------

/- A helper function of generated programs. -/
inductive Helper where
  | var
  | int
  | setInt
  | format
  | waitStatus
  | run
  | capture
  | pipeline
  | background
  | pathExists
  | isFile
  | isDir
  deriving DecidableEq, Repr

namespace Helper

/- The helpers in the order in which a program has them. -/
def all : List Helper :=
  [.var, .int, .setInt, .format, .waitStatus, .run, .capture,
   .pipeline, .background, .pathExists, .isFile, .isDir]

/- The name of the C function. -/
def name : Helper → Text
  | .var => "sh_var"
  | .int => "sh_int"
  | .setInt => "sh_set_int"
  | .format => "sh_format"
  | .waitStatus => "sh_wait_status"
  | .run => "sh_run"
  | .capture => "sh_capture"
  | .pipeline => "sh_pipeline"
  | .background => "sh_background"
  | .pathExists => "sh_path_exists"
  | .isFile => "sh_is_file"
  | .isDir => "sh_is_dir"

/- The helper of a given name. -/
def ofName?
    (name : Text) : Option Helper :=
  all.find? (·.name == name)

/- The helpers that a helper calls. -/
def calls : Helper → List Helper
  | .run => [.waitStatus]
  | .capture => [.waitStatus]
  | .pipeline => [.waitStatus]
  | _ => []

/- The helper and those that it calls. -/
def required
    (helper : Helper) : List Helper :=
  helper :: helper.calls

/- What the log says when a helper is first needed. -/
def record
    (helper : Helper) : Record :=
  ⟨.debug, "runtime helper " ++ helper.name ++ " required"⟩

end Helper

------------------------------------------------------------
-- Usage
------------------------------------------------------------

/-
  The helpers that a program needs, in the order in which
  they were first needed.  No helper is listed twice, since
  only newcomers are added.
-/
structure Usage where
  needed : List Helper := []
  deriving DecidableEq, Repr

namespace Usage

/- No helper is needed. -/
def empty : Usage :=
  {}

/- Whether a helper is needed. -/
def contains
    (usage : Usage)
    (helper : Helper) : Bool :=
  usage.needed.contains helper

/- Whether no helper is needed. -/
def isEmpty
    (usage : Usage) : Bool :=
  usage.needed.isEmpty

/- What needing a helper adds to the helpers needed so far. -/
def newcomers
    (usage : Usage)
    (helper : Helper) : List Helper :=
  helper.required.filter (!usage.contains ·)

/- Need a helper, and with it those that it calls. -/
def require
    (usage : Usage)
    (helper : Helper) : Usage :=
  ⟨usage.needed ++ usage.newcomers helper⟩

/- Need several helpers one after the other. -/
def requireAll
    (usage : Usage)
    (helpers : List Helper) : Usage :=
  helpers.foldl require usage

/- The needed helpers in the order in which a program has them. -/
def helpers
    (usage : Usage) : List Helper :=
  Helper.all.filter usage.contains

end Usage

end ShellToC
