import ShellToC.File.Access
import ShellToC.File.Path
import ShellToC.Program

/-
  This file defines what is done with a script file: it is
  read, made into a program, and the program is written or
  shown.

  Key definitions include:
    * `Delivery`
    * `Mode`
    * `CompileOptions`
    * `Failure`
    * `Outcome`
    * `Outcome.status?`
    * `compile`
-/

namespace ShellToC

------------------------------------------------------------
-- Options
------------------------------------------------------------

/- What is done with a program. -/
inductive Delivery where
  /- Write it to a file. -/
  | write
  /- Show it. -/
  | print
  /- Nothing but to count the errors of the script. -/
  | check
  deriving DecidableEq, Repr

/- What is done with a script. -/
inductive Mode where
  /- Show its statements. -/
  | list
  /- Make it into a program. -/
  | make (delivery : Delivery)
  deriving DecidableEq, Repr

/- How a script is made into a program. -/
structure CompileOptions where
  out : Text := "output.c"
  mode : Mode := .make .write
  unit : Text := "    "
  deriving DecidableEq, Repr

------------------------------------------------------------
-- Outcomes
------------------------------------------------------------

/- Why a run does not succeed, and the exit code that says so. -/
structure Failure where
  code : Nat
  message : Text
  deriving DecidableEq, Repr

/- What a run has to show, and the number of errors in the script. -/
structure Outcome where
  text : Text
  errors : Nat
  deriving DecidableEq, Repr

namespace Failure

/- The script cannot be read. -/
def unreadable
    (path : Text)
    (fault : FileFault) : Failure :=
  ⟨1, "error: unable to read " ++ path ++ ": " ++ fault.message⟩

/- The program cannot be written. -/
def unwritable
    (path : Text)
    (fault : FileFault) : Failure :=
  ⟨1, "error: failed to write " ++ path ++ ": " ++ fault.message⟩

/- The script has errors. -/
def faulty
    (errors : Nat) : Failure :=
  ⟨2, "error: translation finished with " ++ Text.ofNat errors ++
    " error(s)"⟩

end Failure

namespace Outcome

/- A script with errors makes the run fail in the end. -/
def status?
    (outcome : Outcome) : Option Failure :=
  if outcome.errors = 0 then
    none
  else
    some (.faulty outcome.errors)

end Outcome

------------------------------------------------------------
-- Compiling
------------------------------------------------------------

/- What a run ends with, and what it adds to the log. -/
structure Compiled where
  result : Except Failure Outcome
  log : List Record

variable {m : Type → Type} [Monad m]

/- Show the statements of a script. -/
def listStatements
    (script : Text) : Compiled :=
  let listing := Listing.ofScript script
  ⟨.ok ⟨listing.render, 0⟩, listing.log⟩

/- Write a program to the file that the options name. -/
def writeProgram
    (files : FileAccess m)
    (out : Text)
    (program : Program) : m Compiled := do
  let log := program.log.toList
  match ← files.write out program.source with
  | .error fault => pure ⟨.error (.unwritable out fault), log⟩
  | .ok () =>
      pure ⟨.ok ⟨[], program.errorCount⟩,
        log ++ [⟨.info, "wrote " ++ out⟩]⟩

/- What a check of a program has to show. -/
def verdict
    (program : Program) : Text :=
  if program.errorCount = 0 then "OK" else []

/- Do with a program what is to be done with it. -/
def deliver
    (files : FileAccess m)
    (out : Text)
    (program : Program) : Delivery → m Compiled
  | .write => writeProgram files out program
  | .print =>
      pure ⟨.ok ⟨program.source, program.errorCount⟩,
        program.log.toList⟩
  | .check =>
      pure ⟨.ok ⟨verdict program, program.errorCount⟩,
        program.log.toList⟩

/- Make a script into a program under the name it is shown by. -/
def makeProgram
    (files : FileAccess m)
    (options : CompileOptions)
    (delivery : Delivery)
    (path script : Text) : m Compiled := do
  let file := Path.display (← files.workingDir) path
  let program := Program.ofScript file options.unit script
  let compiled ← deliver files options.out program delivery
  pure { compiled with
    log := ⟨.debug, "translating " ++ file⟩ :: compiled.log }

/- Do with the script at a path what the options say. -/
def compile
    (files : FileAccess m)
    (options : CompileOptions)
    (path : Text) : m Compiled := do
  match ← files.read path with
  | .error fault => pure ⟨.error (.unreadable path fault), []⟩
  | .ok script =>
      match options.mode with
      | .list => pure (listStatements script)
      | .make delivery =>
          makeProgram files options delivery path script

end ShellToC
