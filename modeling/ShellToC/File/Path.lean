import ShellToC.Text.Basic

/-
  This file defines paths: their parts between slashes, and
  how the path of a script is shown to readers.

  Key definitions include:
    * `Path.parts`
    * `Path.stripBase?`
    * `Path.fileName?`
    * `Path.display`
-/

namespace ShellToC

namespace Path

------------------------------------------------------------
-- Parts
------------------------------------------------------------

/- The texts between the slashes of a path. -/
def parts
    (path : Text) : List Text :=
  path.splitOnP (· == '/')

/- Whether a path starts at the root. -/
def isAbsolute
    (path : Text) : Bool :=
  path.head? == some '/'

/- Whether a part stays where it is. -/
def stays
    (part : Text) : Bool :=
  part.isEmpty || part = "."

/- Whether a part goes up to the parent. -/
def goesUp
    (part : Text) : Bool :=
  part = ".."

/- The parts that lead somewhere. -/
def steps
    (path : Text) : List Text :=
  (parts path).filter (!stays ·)

/- The parts without those at the end that lead nowhere. -/
def dropIdleEnd
    (ps : List Text) : List Text :=
  (ps.reverse.dropWhile stays).reverse

/- The path that the parts make up. -/
def ofParts
    (ps : List Text) : Text :=
  Text.joinWith "/" ps

------------------------------------------------------------
-- Paths below a Base
------------------------------------------------------------

/- What is left of the parts of a path behind the steps of a base. -/
def dropSteps? : List Text → List Text → Option (List Text)
  | [], ps => some ps
  | _ :: _, [] => none
  | step :: base, part :: ps =>
      if stays part then
        dropSteps? (step :: base) ps
      else if part = step then
        dropSteps? base ps
      else
        none

/-
  The rest of an absolute path below a base.  The empty base
  holds every path and takes nothing away from it.
-/
def stripBase?
    (base path : Text) : Option Text :=
  if base.isEmpty then
    some ('/' :: ofParts (dropIdleEnd (parts path).tail))
  else if isAbsolute base then
    (dropSteps? (steps base) (parts path).tail).map fun rest =>
      ofParts (dropIdleEnd (rest.dropWhile stays))
  else
    none

/- The last step of a path, unless it goes up. -/
def fileName?
    (path : Text) : Option Text :=
  (steps path).getLast?.filter (!goesUp ·)

------------------------------------------------------------
-- Display
------------------------------------------------------------

/-
  An absolute path as it is shown: the part below the base,
  or else the file name, or else the path itself.
-/
def shorten
    (base : Option Text)
    (path : Text) : Text :=
  match base.bind (stripBase? · path) with
  | some rest => rest
  | none => (fileName? path).getD path

/-
  The path of a script as it is shown, so that no program
  depends on where it was made.  Relative paths stay, and
  backslashes become slashes.
-/
def display
    (base : Option Text)
    (path : Text) : Text :=
  Text.replaceChar '\x5c' "/"
    (if isAbsolute path then shorten base path else path)

end Path

end ShellToC
