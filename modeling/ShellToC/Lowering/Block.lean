import ShellToC.Condition.Basic
import ShellToC.Lowering.Value
import ShellToC.Script.Form

/-
  This file defines what the keywords of conditionals and
  loops write: how blocks are opened, continued and closed.

  A further condition of a conditional becomes a conditional
  in the `else` branch of the one before it, and one keyword
  closes all of them.

  Key definitions include:
    * `Event.condition`
    * `Event.openIf`
    * `Event.openElif`
    * `Event.openElse`
    * `Event.openWhile`
    * `Event.openFor`
    * `Event.closeIf`
    * `Event.closeLoop`
    * `Event.closeAll`
-/

namespace ShellToC

namespace Event

------------------------------------------------------------
-- Conditions
------------------------------------------------------------

/- Set the status by a test.  A faulty test fails. -/
def test
    (line : Nat)
    (expr : Text) : List Event :=
  match Condition.ofText expr with
  | .ok e => [.write 0 (.setStatus e)]
  | .error fault => [.fail line fault, .write 0 .failed]

/- Set the status by a test, a constant, or a command. -/
def check
    (line : Nat)
    (text : Text) : List Event :=
  match Form.testExpression? text with
  | some expr => test line expr
  | none =>
      if text = "true" ∨ text = ":" then
        [.write 0 .succeed]
      else if text = "false" then
        [.write 0 .failed]
      else
        run text

/- The condition behind a leading exclamation mark and blanks. -/
def negated? : Text → Option Text
  | '!' :: rest =>
      if Pattern.startsBlank rest then
        some (Text.trimStart rest)
      else
        none
  | _ => none

/- Set the status by a condition, which may be negated. -/
def condition
    (line : Nat)
    (text : Text) : List Event :=
  match negated? text with
  | some rest => check line rest ++ [.write 0 .invertStatus]
  | none => check line text

------------------------------------------------------------
-- Conditionals
------------------------------------------------------------

/- Open a block for the case that the condition holds. -/
def openBranch
    (line : Nat)
    (cond : Text)
    (frame : Frame) : List Event :=
  condition line cond ++ [.write 0 .openOnSuccess, .push frame]

/- Open a conditional. -/
def openIf
    (line : Nat)
    (cond : Text) : List Event :=
  openBranch line cond ⟨.conditional, "if", line, false, false, []⟩

/-
  Go over to the `else` branch of the innermost block, and
  on with `next`.  A block that is no conditional, or is in
  its `else` branch already, is taken up again as it was.
-/
def continueElse
    (line : Nat)
    (keyword : Text)
    (blocks : List Frame)
    (next : List Event) : List Event :=
  match blocks with
  | [] => [.fail line (.unopened keyword)]
  | frame :: _ =>
      if frame.takesElse then
        [.pop, .write 0 .openElse,
         .push { frame with inElse := true }] ++ next
      else
        [.pop, .push frame, .fail line (.unopened keyword)]

/- Open the last branch of a conditional. -/
def openElse
    (line : Nat)
    (blocks : List Frame) : List Event :=
  continueElse line "else" blocks []

/- Open a further condition of a conditional. -/
def openElif
    (line : Nat)
    (cond : Text)
    (blocks : List Frame) : List Event :=
  continueElse line "elif" blocks
    (openBranch line cond
      ⟨.conditional, "elif", line, true, false, []⟩)

------------------------------------------------------------
-- Loops
------------------------------------------------------------

/- Open a loop that goes on while a condition holds. -/
def openWhile
    (line : Nat)
    (cond : Text) : List Event :=
  [.write 0 .openForever,
   .push ⟨.loop, "while", line, false, false, []⟩] ++
  condition line cond ++
  [.write 0 .openOnFailure, .write 1 .leaveLoop, .write 0 .close]

/- The frame of a loop over items. -/
def forFrame
    (line : Nat)
    (epilogue : List Line) : Frame :=
  ⟨.loop, "for", line, false, false, epilogue⟩

/- The call that builds the text of an item. -/
def buildItem : Template → FormatCall
  | .literal text => .copy text
  | .format text args => .ofTemplate text args

/- The line that declares the items of a loop. -/
def declareItems
    (loop : Nat)
    (items : List Template) : Line :=
  if items.all Template.isLiteral then
    .declareItems loop (items.map Template.text)
  else
    .declareBuiltItems loop (items.map buildItem)

/- The lines that free the items of a loop. -/
def freeItems
    (loop : Nat)
    (items : List Template) : List Line :=
  if items.all Template.isLiteral then
    []
  else
    (List.range items.length).map (.freeItem loop)

/- Open the loop of a given number over items. -/
def openForItems
    (line loop : Nat)
    (var : Text)
    (items : List Template) : List Event :=
  [.countLoop,
   .write 0 (declareItems loop items),
   .write 0 (.openItems loop items.length),
   .push (forFrame line (freeItems loop items)),
   .write 0 (.assignItem var loop)]

/-
  Open a loop over the words of a text.  A loop over nothing
  takes no number.
-/
def openFor
    (line loops : Nat)
    (var : Text)
    (items : Option Text) : List Event :=
  match Word.split (items.getD []) with
  | [] => [.write 0 .openNever, .push (forFrame line [])]
  | words =>
      openForItems line (loops + 1) var
        (words.map Template.ofWord)

------------------------------------------------------------
-- Closing Blocks
------------------------------------------------------------

/- Close a block and write its epilogue. -/
def closeFrame
    (frame : Frame) : List Event :=
  .write 0 .close :: lines 0 frame.epilogue

/- The warning about a keyword that closes the other kind of block. -/
def mismatch
    (line : Nat)
    (keyword : Text)
    (frame : Frame) : Event :=
  .warn line
    ("\x60" ++ keyword ++ "\x60 closes the \x60" ++ frame.opener ++
      "\x60 block opened on line " ++ Text.ofNat frame.line ++
      " (expected \x60" ++ frame.kind.closer ++ "\x60)")

/- Close the innermost block, with a warning if it is of the other kind. -/
def closeAs
    (line : Nat)
    (keyword : Text)
    (expected : BlockKind)
    (frame : Frame) : List Event :=
  .pop ::
    (if frame.kind = expected then
      []
    else
      [mismatch line keyword frame]) ++
    closeFrame frame

/- Close the blocks that a chained block continues. -/
def closeChain : List Frame → List Event
  | [] => []
  | frame :: rest =>
      .pop :: closeFrame frame ++
        if frame.chained then closeChain rest else []

/- Close a conditional with all of its conditions. -/
def closeIf
    (line : Nat) : List Frame → List Event
  | [] => [.fail line (.unopened "fi")]
  | frame :: rest =>
      closeAs line "fi" .conditional frame ++
        if frame.chained then closeChain rest else []

/- Close a loop. -/
def closeLoop
    (line : Nat) : List Frame → List Event
  | [] => [.fail line (.unopened "done")]
  | frame :: _ => closeAs line "done" .loop frame

/-
  Close every open block at the end of the script, with a
  fault for each one that is not chained.
-/
def closeAll
    (blocks : List Frame) : List Event :=
  blocks.flatMap fun frame =>
    .pop ::
      (if frame.chained then
        []
      else
        [.fail frame.line (.unclosed frame.opener)]) ++
      closeFrame frame

end Event

end ShellToC
