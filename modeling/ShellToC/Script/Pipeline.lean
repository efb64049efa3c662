import ShellToC.Script.Mark

/-
  This file defines how a command is read around its bare
  operators: the stages of a pipeline, redirections, and
  the operators of command lists.

  Key definitions include:
    * `Pipeline.stages?`
    * `Pipeline.hasRedirection`
    * `Pipeline.hasListOperator`
-/

namespace ShellToC

namespace Pipeline

------------------------------------------------------------
-- Stages
------------------------------------------------------------

/- The trimmed texts between the bare pipe signs. -/
def parts
    (text : Text) : List Text :=
  ((Mark.scan text).splitOnP (Mark.isBareChar '|')).map
    fun marks => Text.trim (Mark.chars marks)

/-
  The stages of a pipeline: at least two, and none empty.
  Two pipe signs in a row leave an empty part, so they
  never make a pipeline.
-/
def stages?
    (text : Text) : Option (List Text) :=
  if 2 ≤ (parts text).length ∧
      (parts text).all (!·.isEmpty) then
    some (parts text)
  else
    none

------------------------------------------------------------
-- Operators
------------------------------------------------------------

/- Whether a bare `<` or `>` stands in the text. -/
def hasRedirection
    (text : Text) : Bool :=
  (Mark.scan text).any fun m =>
    m.isBareChar '<' || m.isBareChar '>'

/- Whether two neighbouring marks are `&&` or `||`, both bare. -/
def hasPair : List Mark → Bool
  | m :: n :: rest =>
      (m.isBareChar '&' && n.isBareChar '&') ||
        (m.isBareChar '|' && n.isBareChar '|') ||
        hasPair (n :: rest)
  | _ => false

/- Whether a bare `&&` or `||` stands in the text. -/
def hasListOperator
    (text : Text) : Bool :=
  hasPair (Mark.scan text)

end Pipeline

end ShellToC
