import ShellToC.Lowering.Block

/-
  This file defines what every form of statement writes.

  A statement decides what it writes by the open blocks and
  the number of loops before it, and by nothing else.

  Key definitions include:
    * `Event.print`
    * `Event.echo`
    * `Command.events`
    * `Draft.addCommand`
    * `Draft.finish`
-/

namespace ShellToC

namespace Event

------------------------------------------------------------
-- Printing
------------------------------------------------------------

/- The line that prints a template, with or without a line feed. -/
def printLine
    (newline : Bool) : Template → Line
  | .literal text =>
      if newline then .printLine text else .printText text
  | .format text args =>
      .printFormat (.ofTemplate
        (if newline then text ++ ['\n'] else text) args)

/- Print a template. -/
def print
    (newline : Bool)
    (template : Template) : List Event :=
  lines 0 [printLine newline template, .succeed]

/- The fault of an echo that is more than one. -/
def echoFault
    (what args : Text) : Fault :=
  .construct (what ++ " in \x60echo " ++ args ++ "\x60")

/- Print words with a space between neighbours. -/
def printWords
    (newline : Bool)
    (words : List Text) : List Event :=
  print newline (Template.join " " (words.map Template.ofWord))

/- Print the words of a text.  A leading `-n` leaves the line open. -/
def echo
    (args : Text) : Except Fault (List Event) :=
  if Pipeline.hasRedirection args then
    .error (echoFault "redirection" args)
  else if Pipeline.hasListOperator args then
    .error (echoFault "command list" args)
  else if Pattern.mentionsSubstitution args then
    .error (echoFault "command substitution" args)
  else
    match Word.split args with
    | [] => .ok (printWords true [])
    | first :: rest =>
        if first = "-n" then
          .ok (printWords false rest)
        else
          .ok (printWords true (first :: rest))

------------------------------------------------------------
-- Variables
------------------------------------------------------------

/- Give a variable the value of an arithmetic expression. -/
def arithAssign
    (name expr : Text) : Except Fault (List Event) :=
  (ArithExpr.ofText expr).map fun value =>
    lines 0 [.assignInt name value, .succeed]

/- Print the value of an arithmetic expression. -/
def arithPrint
    (expr : Text) : Except Fault (List Event) :=
  (ArithExpr.ofText expr).map fun value =>
    lines 0 [.printInt value, .succeed]

/- Give a variable the output of a command. -/
def captureAssign
    (name command : Text) : List Event :=
  let value := Value.ofTemplate .command (.ofCommand command)
  withValuesInScope [value]
    [.declareOutput value.expr,
     .assign name (.temporary .output),
     .free .output]

/- Give a variable the value of a word. -/
def assign
    (name word : Text) : List Event :=
  let value := Value.ofTemplate .value (.ofWord word)
  withValues [value] [.assign name value.expr] ++
    [.write 0 .succeed]

------------------------------------------------------------
-- Commands
------------------------------------------------------------

/- The values of the stages of a pipeline. -/
def stageValues
    (stages : List Text) : List Value :=
  stages.mapIdx fun index stage =>
    Value.ofTemplate (.stage index) (.ofCommand stage)

/- Run the stages of a pipeline. -/
def pipeline
    (stages : List Text) : List Event :=
  let values := stageValues stages
  withValuesInScope values
    [.declareStages (values.map Value.expr),
     .declareStatuses values.length,
     .declareResult values.length,
     .setPipelineStatus]

/- Run a command in the background. -/
def background
    (command : Text) : List Event :=
  let value := Value.ofTemplate .command (.ofCommand command)
  withValues [value] [.startJob value.expr, .setJobStatus]

/- The directory to change to: one word, or the home directory. -/
def directory : Option Text → Except Fault Value
  | none => .ok (.borrowed (.variable "HOME"))
  | some dir =>
      match Word.split dir with
      | [word] => .ok (.ofTemplate .directory (.ofWord word))
      | _ => .error (.construct ("cd " ++ dir))

/- Change the working directory. -/
def changeDir
    (dir : Option Text) : Except Fault (List Event) :=
  (directory dir).map fun value =>
    withValues [value] [.changeDir value.expr]

/- The status to end with: that of a word, or of the last command. -/
def exitCode : Option Text → Except Fault IntExpr
  | none => .ok .status
  | some word => (Operand.ofWord word).map Operand.intExpr

/- End the program. -/
def exit
    (code : Option Text) : Except Fault (List Event) :=
  (exitCode code).map fun e => [.write 0 (.exit e)]

/- Print the working directory. -/
def printWorkingDir : List Event :=
  [.write 0 .openScope,
   .write 1 .declareWorkingDir,
   .write 1 .openOnWorkingDir,
   .write 2 .printWorkingDir,
   .write 2 .succeed,
   .write 1 .openElse,
   .write 2 .failed,
   .write 1 .close,
   .write 0 .close]

/- Carry out a command that is known by name. -/
def informational
    (command text : Text) : List Event :=
  if command = "true" ∨ command = ":" then
    [.write 0 .succeed]
  else if command = "false" then
    [.write 0 .failed]
  else if command = "pwd" then
    printWorkingDir
  else
    run text

/- A fault takes the place of what a statement would have written. -/
def orFail
    (line : Nat) : Except Fault (List Event) → List Event
  | .ok events => events
  | .error fault => [.fail line fault]

end Event

------------------------------------------------------------
-- Statements
------------------------------------------------------------

namespace Command

/-
  What the statement on a line writes, given the open blocks
  and the number of loops before it.
-/
def events
    (blocks : List Frame)
    (loops line : Nat)
    (command : Command) : List Event :=
  match command.form with
  | .comment => []
  | .bodyOpen => []
  | .pipeline stages => Event.pipeline stages
  | .echo args => Event.orFail line (Event.echo (args.getD []))
  | .arithAssign name expr =>
      Event.orFail line (Event.arithAssign name expr)
  | .captureAssign name body => Event.captureAssign name body
  | .arithPrint expr => Event.orFail line (Event.arithPrint expr)
  | .test expr => Event.test line expr
  | .changeDir dir => Event.orFail line (Event.changeDir dir)
  | .ifOpen cond => Event.openIf line cond
  | .elifBranch cond => Event.openElif line cond blocks
  | .whileOpen cond => Event.openWhile line cond
  | .elseBranch => Event.openElse line blocks
  | .ifClose => Event.closeIf line blocks
  | .forOpen var items => Event.openFor line loops var items
  | .loopClose => Event.closeLoop line blocks
  | .exit code => Event.orFail line (Event.exit code)
  | .background body => Event.background body
  | .assign name value => Event.assign name value
  | .informational name _ => Event.informational name command.text
  | .varPrint => Event.print true (.ofStatement command.text)
  | .unsupported => [.fail line (.construct command.text)]

end Command

namespace Draft

/- Write the statement on a line. -/
def addCommand
    (draft : Draft)
    (line : Nat)
    (command : Command) : Draft :=
  draft.extend (command.events draft.blocks draft.loops line)

/- Close every block that is still open. -/
def finish
    (draft : Draft) : Draft :=
  draft.extend (Event.closeAll draft.blocks)

end Draft

end ShellToC
