import ShellToC.Code.Line
import ShellToC.Log

/-
  This file defines blocks: the conditionals and loops of a
  script that are still open, the innermost first.

  Key definitions include:
    * `BlockKind`
    * `Frame`
    * `Frame.openRecord`
    * `Frame.closeRecord`
-/

namespace ShellToC

------------------------------------------------------------
-- Kinds
------------------------------------------------------------

/- The two kinds of block. -/
inductive BlockKind where
  | conditional
  | loop
  deriving DecidableEq, Repr

namespace BlockKind

/- The keyword that closes a block. -/
def closer : BlockKind → Text
  | .conditional => "fi"
  | .loop => "done"

end BlockKind

------------------------------------------------------------
-- Frames
------------------------------------------------------------

/-
  An open block.  A chained block is a further condition of
  the conditional around it and is closed together with it.
  The epilogue is written right behind the closing brace.
-/
structure Frame where
  kind : BlockKind
  opener : Text
  line : Nat
  chained : Bool := false
  inElse : Bool := false
  epilogue : List Line := []
  deriving DecidableEq, Repr

namespace Frame

/- What the log says when the block is opened at a depth. -/
def openRecord
    (depth : Nat)
    (frame : Frame) : Record :=
  ⟨.debug, "open \x60" ++ frame.opener ++ "\x60 block at depth " ++
    Text.ofNat depth⟩

/- What the log says when the block is closed down to a depth. -/
def closeRecord
    (depth : Nat)
    (frame : Frame) : Record :=
  ⟨.debug, "close \x60" ++ frame.opener ++ "\x60 block at depth " ++
    Text.ofNat depth⟩

/- Whether the block is a conditional that has no `else` yet. -/
def takesElse
    (frame : Frame) : Bool :=
  frame.kind == .conditional && !frame.inElse

end Frame

end ShellToC
