import ShellToC.Block
import ShellToC.Diagnostic
import ShellToC.Fault

/-
  This file defines drafts: programs under construction, and
  the events by which they grow.

  The lines of a draft, the helpers it needs and the reports
  about it only ever grow.  A helper is needed exactly from
  the first line on that calls it.

  Key definitions include:
    * `Event`
    * `Draft`
    * `Draft.push`
    * `Draft.pop?`
    * `Draft.report`
    * `Draft.write`
    * `Draft.apply`
    * `Draft.extend`
    * `Draft.body`
-/

namespace ShellToC

------------------------------------------------------------
-- Events
------------------------------------------------------------

/- One step in the growth of a draft. -/
inductive Event where
  /- Write a line, indented further than the open blocks ask for. -/
  | write (extra : Nat) (line : Line)
  /- Mark a fault of a line of the script and report it. -/
  | fail (line : Nat) (fault : Fault)
  /- Warn about a line of the script. -/
  | warn (line : Nat) (message : Text)
  /- Open a block. -/
  | push (frame : Frame)
  /- Close the innermost block. -/
  | pop
  /- Take the next number for a loop. -/
  | countLoop
  deriving DecidableEq, Repr

------------------------------------------------------------
-- Drafts
------------------------------------------------------------

/- A program under construction. -/
structure Draft where
  file : Text
  unit : Text
  blocks : List Frame := []
  loops : Nat := 0
  usage : Usage := .empty
  rows : Array Row := #[]
  diagnostics : Array Diagnostic := #[]
  log : Array Record := #[]
  deriving Repr

namespace Draft

/- A draft in which nothing is written yet. -/
def start
    (file unit : Text) : Draft :=
  { file, unit }

/- The number of open blocks. -/
def depth
    (draft : Draft) : Nat :=
  draft.blocks.length

/- The indentation of the next line. -/
def indentation
    (draft : Draft) : Text :=
  Text.repeated (draft.depth + 1) draft.unit

/- Add a record to the log. -/
def note
    (draft : Draft)
    (record : Record) : Draft :=
  { draft with log := draft.log.push record }

/- Need a helper. -/
def require
    (draft : Draft)
    (helper : Helper) : Draft :=
  { draft with
    usage := draft.usage.require helper
    log := draft.log ++
      (draft.usage.newcomers helper).map Helper.record }

/- Report on a line of the script. -/
def report
    (draft : Draft)
    (d : Diagnostic) : Draft :=
  { draft with
    diagnostics := draft.diagnostics.push d
    log := draft.log.push (d.record draft.file) }

/- Open a block. -/
def push
    (draft : Draft)
    (frame : Frame) : Draft :=
  { draft with
    blocks := frame :: draft.blocks
    log := draft.log.push (frame.openRecord draft.depth) }

/- Close the innermost block, if there is one. -/
def pop?
    (draft : Draft) : Option (Frame × Draft) :=
  match draft.blocks with
  | [] => none
  | frame :: rest =>
      some (frame,
        { draft with
          blocks := rest
          log := draft.log.push (frame.closeRecord rest.length) })

/- Close the innermost block on behalf of a keyword. -/
def popFor
    (draft : Draft)
    (keyword : Text) : Except Fault (Frame × Draft) :=
  match draft.pop? with
  | some result => .ok result
  | none => .error (.unopened keyword)

/- Write a line, and need the helpers that it calls. -/
def write
    (draft : Draft)
    (extra : Nat)
    (line : Line) : Draft :=
  let draft := line.needs.foldl require draft
  { draft with
    rows := draft.rows.push ⟨draft.depth + 1 + extra, line⟩ }

/- Mark a fault in the program and report it as an error. -/
def fail
    (draft : Draft)
    (line : Nat)
    (fault : Fault) : Draft :=
  (draft.write 0 (.marker draft.file line fault.message)).report
    ⟨.error, line, fault.message⟩

------------------------------------------------------------
-- Growth
------------------------------------------------------------

/- What one event makes of a draft. -/
def apply
    (draft : Draft) : Event → Draft
  | .write extra line => draft.write extra line
  | .fail line fault => draft.fail line fault
  | .warn line message => draft.report ⟨.warn, line, message⟩
  | .push frame => draft.push frame
  | .pop =>
      match draft.pop? with
      | some (_, rest) => rest
      | none => draft
  | .countLoop => { draft with loops := draft.loops + 1 }

/- What events make of a draft, one after the other. -/
def extend
    (draft : Draft)
    (events : List Event) : Draft :=
  events.foldl apply draft

/- The text of the lines written so far. -/
def body
    (draft : Draft) : Text :=
  draft.rows.toList.flatMap (Row.render draft.unit)

/- The number of errors reported so far. -/
def errorCount
    (draft : Draft) : Nat :=
  Diagnostic.errorCount draft.diagnostics

/- Whether an error was reported. -/
def hasErrors
    (draft : Draft) : Bool :=
  draft.diagnostics.any Diagnostic.isError

end Draft

end ShellToC
