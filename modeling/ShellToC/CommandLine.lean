import ShellToC.Compile
import ShellToC.Text.Plain

/-
  This file defines the command line: what its arguments ask
  for, and what a run prints and returns.

  Arguments are read from the left, and the first one that
  ends the reading decides.

  Key definitions include:
    * `Request`
    * `Arguments`
    * `Arguments.readFrom`
    * `Request.ofArguments`
    * `Report`
    * `CommandLine.run`
-/

namespace ShellToC

------------------------------------------------------------
-- Requests
------------------------------------------------------------

/- What the arguments ask for. -/
inductive Request where
  | help
  | version
  /- The arguments are not understood. -/
  | misuse (message : Text)
  /- Do something with a script. -/
  | compile (script : Text) (options : CompileOptions)
      (verbose : Bool)
  deriving DecidableEq, Repr

------------------------------------------------------------
-- Reading Arguments
------------------------------------------------------------

/- What the arguments read so far have said. -/
structure Arguments where
  script : Option Text := none
  out : Option Text := none
  actions : List (Text × Mode) := []
  verbose : Bool := false
  deriving DecidableEq, Repr

/- The flags that choose what is done with a script. -/
def actionFlags : List (Text × Mode) :=
  [("--check", .make .check),
   ("--emit-statements", .list),
   ("--emit-c", .make .print)]

/- The misuse of an argument that is not expected. -/
def unexpected
    (argument : Text) : Request :=
  .misuse ("error: unexpected argument: " ++ argument)

/- The misuse of a flag whose argument is missing. -/
def incomplete
    (flag : Text) : Request :=
  .misuse ("error: " ++ flag ++ " requires an argument")

/- No script is named. -/
def missingScript : Request :=
  .misuse "error: missing input file"

namespace Arguments

/- Take up an argument that is no flag. -/
def addScript
    (arguments : Arguments)
    (script : Text) : Except Request Arguments :=
  match arguments.script with
  | none => .ok { arguments with script := some script }
  | some _ =>
      .error (unexpected (script ++ " (script already specified)"))

/- Take up an argument that stands for itself. -/
def addSingle
    (arguments : Arguments)
    (argument : Text) : Except Request Arguments :=
  if argument = "-h" ∨ argument = "--help" then
    .error .help
  else if argument = "-V" ∨ argument = "--version" then
    .error .version
  else if argument = "-v" ∨ argument = "--verbose" then
    .ok { arguments with verbose := true }
  else
    match Text.dropLead? "--out=" argument,
        actionFlags.lookup argument with
    | some [], _ => .error (incomplete "--out")
    | some file, _ => .ok { arguments with out := some file }
    | none, some mode =>
        .ok { arguments with
          actions := arguments.actions ++ [(argument, mode)] }
    | none, none =>
        if argument.head? = some '-' then
          .error (unexpected argument)
        else
          arguments.addScript argument

/- Whether a flag takes the argument behind it as a file to write. -/
def takesFile
    (argument : Text) : Bool :=
  argument = "-o" || argument = "--out"

/- Take up all arguments, or stop with what they ask for. -/
def readFrom
    (arguments : Arguments) :
    List Text → Except Request Arguments
  | [] => .ok arguments
  | [argument] =>
      if takesFile argument then
        .error (incomplete argument)
      else
        arguments.addSingle argument
  | argument :: next :: rest =>
      if takesFile argument then
        readFrom { arguments with out := some next } rest
      else
        match arguments.addSingle argument with
        | .error request => .error request
        | .ok arguments => readFrom arguments (next :: rest)

/- The mode that the flags choose: at most one, and none with a file. -/
def mode
    (arguments : Arguments) : Except Request Mode :=
  match arguments.actions, arguments.out with
  | [], _ => .ok (.make .write)
  | [(_, mode)], none => .ok mode
  | [(flag, _)], some _ =>
      .error (.misuse
        ("error: " ++ flag ++ " cannot be used with --out"))
  | _ :: _ :: _, _ =>
      .error (.misuse
        ("error: multiple action flags specified " ++
          "(choose only one of: --check, --emit-statements, " ++
          "--emit-c)"))

/- What all the arguments together ask for. -/
def request
    (arguments : Arguments) : Request :=
  match arguments.mode, arguments.script with
  | .error request, _ => request
  | .ok _, none => missingScript
  | .ok mode, some script =>
      let options : CompileOptions := {}
      .compile script
        { options with
          mode, out := arguments.out.getD options.out }
        arguments.verbose

end Arguments

namespace Request

/- What the arguments ask for. -/
def ofArguments
    (arguments : List Text) : Request :=
  match Arguments.readFrom {} arguments with
  | .ok arguments => arguments.request
  | .error request => request

end Request

------------------------------------------------------------
-- Runs
------------------------------------------------------------

/- The exit code of a run, and what it prints. -/
structure Report where
  code : Nat
  out : Text
  err : Text
  deriving DecidableEq, Repr

namespace CommandLine

/- How the command is used. -/
def usageLines : List String :=
  ["Usage: shtoc [flags] <script.sh>",
   "Flags:",
   "  -o, --out <file>       Write the C program to <file> (default: output.c)",
   "  --check                Translate and report errors without writing output",
   "  --emit-statements      Print segmented statements and their kinds (debug)",
   "  --emit-c               Print the C program to stdout instead of writing it",
   "  -v, --verbose          Log translation decisions",
   "  -h, --help             Print help information",
   "  -V, --version          Print version information and exit"]

/- The text that says how the command is used. -/
def usage : Text :=
  Layout.text usageLines

/- The name and version of the command. -/
def version : Text :=
  "shtoc 0.1.0"

/- The text as a line of its own. -/
def line
    (text : Text) : Text :=
  text ++ ['\n']

/- The filter of a run.  A verbose run shows what is decided. -/
def filter
    (setting : Option Text)
    (verbose : Bool) : Filter :=
  if verbose then
    .upTo .debug
  else
    (setting.map Filter.ofText).getD .standard

/-
  The text of the records that a filter shows.  Each line is
  shown as plain text, so that the names and statements in a
  message cannot steer the terminal.
-/
def logText
    (filter : Filter)
    (log : List Record) : Text :=
  (log.filter filter.admits).flatMap fun record =>
    Text.plain (line record.render)

/- What an outcome prints in a mode. -/
def outputText
    (mode : Mode)
    (outcome : Outcome) : Text :=
  match mode with
  | .list => outcome.text
  | .make .print => outcome.text
  | .make .check =>
      if outcome.text.isEmpty then [] else line outcome.text
  | .make .write => []

/- The report of a run that is over. -/
def report
    (filter : Filter)
    (mode : Mode)
    (compiled : Compiled) : Report :=
  let log := logText filter compiled.log
  match compiled.result with
  | .error failure =>
      ⟨failure.code, [], log ++ line failure.message⟩
  | .ok outcome =>
      let out := outputText mode outcome
      match outcome.status? with
      | none => ⟨0, out, log⟩
      | some failure =>
          ⟨failure.code, out, log ++ line failure.message⟩

variable {m : Type → Type} [Monad m]

/- Do what the arguments ask for, under a setting of the log filter. -/
def run
    (files : FileAccess m)
    (setting : Option Text)
    (arguments : List Text) : m Report :=
  match Request.ofArguments arguments with
  | .help => pure ⟨0, usage, []⟩
  | .version => pure ⟨0, line version, []⟩
  | .misuse message => pure ⟨1, [], line message ++ usage⟩
  | .compile script options verbose => do
      let compiled ← compile files options script
      pure (report (filter setting verbose) options.mode compiled)

end CommandLine

end ShellToC
