import ShellToC.Code.Expr

/-
  This file defines the lines of generated programs.

  A line is given by what it does.  Its text and the helpers
  that it calls follow from that.

  Key definitions include:
    * `Line`
    * `Line.render`
    * `Line.needs`
    * `Row`
    * `Row.render`
-/

namespace ShellToC

------------------------------------------------------------
-- Lines
------------------------------------------------------------

/- One line of a generated program. -/
inductive Line where
  /- A comment that marks where a fault occurred. -/
  | marker (file : Text) (line : Nat) (message : Text)
  /- A line that is written as it is given. -/
  | verbatim (text : Text)
  /- The opening and closing of blocks. -/
  | openScope
  | openOnSuccess
  | openOnFailure
  | openForever
  | openNever
  | openItems (loop count : Nat)
  | openOnWorkingDir
  | openElse
  | close
  | leaveLoop
  /- The status of the last command. -/
  | succeed
  | failed
  | setStatus (e : BoolExpr)
  | invertStatus
  | setJobStatus
  | setPipelineStatus
  /- Commands. -/
  | run (command : StringExpr)
  | changeDir (dir : StringExpr)
  | startJob (command : StringExpr)
  | exit (code : IntExpr)
  /- Variables of the script. -/
  | assign (name : Text) (value : StringExpr)
  | assignItem (name : Text) (loop : Nat)
  | assignInt (name : Text) (value : ArithExpr)
  /- Printing. -/
  | printLine (text : Text)
  | printText (text : Text)
  | printFormat (call : FormatCall)
  | printInt (value : ArithExpr)
  | printWorkingDir
  /- Variables of the program. -/
  | declareBuilt (temp : Temporary) (call : FormatCall)
  | declareOutput (command : StringExpr)
  | declareStages (commands : List StringExpr)
  | declareStatuses (count : Nat)
  | declareResult (count : Nat)
  | declareWorkingDir
  | declareItems (loop : Nat) (items : List Text)
  | declareBuiltItems (loop : Nat) (items : List FormatCall)
  | free (temp : Temporary)
  | freeItem (loop index : Nat)
  deriving DecidableEq, Repr

namespace Line

------------------------------------------------------------
-- Text
------------------------------------------------------------

/- Part every end of a comment by a space. -/
def partCommentEnds : Text → Text
  | '*' :: '/' :: rest => '*' :: ' ' :: '/' :: partCommentEnds rest
  | c :: rest => c :: partCommentEnds rest
  | [] => []

/- The array that holds the items of a loop. -/
def itemsName
    (loop : Nat) : Text :=
  "sh_items_" ++ Text.ofNat loop

/- The index of the current item of a loop. -/
def indexName
    (loop : Nat) : Text :=
  "sh_i_" ++ Text.ofNat loop

/- The text that sets the status of the last command. -/
def statusText
    (value : Text) : Text :=
  statusVariable ++ " = " ++ value ++ ";"

/- The text that gives a variable of the script a value. -/
def assignText
    (name value : Text) : Text :=
  callText "setenv" (Literal.quote name ++ ", " ++ value ++ ", 1") ++
    ";"

/- The text of a list of values in braces. -/
def listText
    (values : List Text) : Text :=
  "\x7b " ++ Text.joinWith ", " values ++ " \x7d"

/- The text of a line. -/
def render : Line → Text
  | .marker file line message =>
      "/* shtoc: " ++ file ++ ":" ++ Text.ofNat line ++ ": " ++
        partCommentEnds message ++ " */"
  | .verbatim text => text
  | .openScope => "\x7b"
  | .openOnSuccess => "if (" ++ statusVariable ++ " == 0) \x7b"
  | .openOnFailure => "if (" ++ statusVariable ++ " != 0) \x7b"
  | .openForever => "for (;;) \x7b"
  | .openNever => "while (0) \x7b"
  | .openItems loop count =>
      "for (size_t " ++ indexName loop ++ " = 0; " ++
        indexName loop ++ " < " ++ Text.ofNat count ++ "; " ++
        indexName loop ++ "++) \x7b"
  | .openOnWorkingDir =>
      "if (getcwd(sh_cwd, sizeof sh_cwd) != NULL) \x7b"
  | .openElse => "\x7d else \x7b"
  | .close => "\x7d"
  | .leaveLoop => "break;"
  | .succeed => statusText "0"
  | .failed => statusText "1"
  | .setStatus e => statusText ("(" ++ e.render ++ ") ? 0 : 1")
  | .invertStatus => statusText (statusVariable ++ " == 0 ? 1 : 0")
  | .setJobStatus => statusText (jobVariable ++ " < 0 ? 127 : 0")
  | .setPipelineStatus => statusText "sh_rc < 0 ? 127 : sh_rc"
  | .run command =>
      statusText (callText Helper.run.name command.render)
  | .changeDir dir =>
      statusText (callText "chdir" dir.render ++ " == 0 ? 0 : 1")
  | .startJob command =>
      jobVariable ++ " = " ++
        callText Helper.background.name command.render ++ ";"
  | .exit code => "return (int)(" ++ code.render ++ ");"
  | .assign name value => assignText name value.render
  | .assignItem name loop =>
      assignText name
        (itemsName loop ++ "[" ++ indexName loop ++ "]")
  | .assignInt name value =>
      callText Helper.setInt.name
        (Literal.quote name ++ ", " ++ value.render) ++ ";"
  | .printLine text => callText "puts" (Literal.quote text) ++ ";"
  | .printText text =>
      callText "fputs" (Literal.quote text ++ ", stdout") ++ ";"
  | .printFormat call => call.renderPrint ++ ";"
  | .printInt value =>
      callText "printf"
        (Literal.quote "%ld\n" ++ ", (long)" ++ value.render) ++ ";"
  | .printWorkingDir => "puts(sh_cwd);"
  | .declareBuilt temp call =>
      "char *" ++ temp.name ++ " = " ++ call.renderBuild ++ ";"
  | .declareOutput command =>
      "char *" ++ Temporary.output.name ++ " = " ++
        callText Helper.capture.name command.render ++ ";"
  | .declareStages commands =>
      "const char *sh_cmds[" ++ Text.ofNat commands.length ++
        "] = " ++ listText (commands.map StringExpr.render) ++ ";"
  | .declareStatuses count =>
      "int sh_statuses[" ++ Text.ofNat count ++ "];"
  | .declareResult count =>
      "int sh_rc = " ++
        callText Helper.pipeline.name
          ("sh_cmds, " ++ Text.ofNat count ++ ", sh_statuses") ++
        ";"
  | .declareWorkingDir => "char sh_cwd[4096];"
  | .declareItems loop items =>
      "static const char *const " ++ itemsName loop ++ "[] = " ++
        listText (items.map Literal.quote) ++ ";"
  | .declareBuiltItems loop items =>
      "char *" ++ itemsName loop ++ "[] = " ++
        listText (items.map FormatCall.renderBuild) ++ ";"
  | .free temp => callText "free" temp.name ++ ";"
  | .freeItem loop index =>
      callText "free"
        (itemsName loop ++ "[" ++ Text.ofNat index ++ "]") ++ ";"

------------------------------------------------------------
-- Helpers
------------------------------------------------------------

/- The helpers that a line calls, in the order asked for. -/
def needs : Line → List Helper
  | .setStatus e => e.needs
  | .run command => command.needs ++ [.run]
  | .changeDir dir => dir.needs
  | .startJob command => command.needs ++ [.background]
  | .exit code => code.needs
  | .assign _ value => value.needs
  | .assignInt _ value => value.needs ++ [.setInt]
  | .printFormat call => call.argNeeds
  | .printInt value => value.needs
  | .declareBuilt _ call => call.buildNeeds
  | .declareOutput command => command.needs ++ [.capture]
  | .declareStages commands => commands.flatMap StringExpr.needs
  | .declareResult _ => [.pipeline]
  | .declareBuiltItems _ items => items.flatMap FormatCall.buildNeeds
  | _ => []

end Line

------------------------------------------------------------
-- Rows
------------------------------------------------------------

/- A line and how far it is indented. -/
structure Row where
  indent : Nat
  line : Line
  deriving DecidableEq, Repr

namespace Row

/- The text of a row, with the given unit of indentation. -/
def render
    (unit : Text)
    (row : Row) : Text :=
  Text.repeated row.indent unit ++ row.line.render ++ ['\n']

end Row

end ShellToC
