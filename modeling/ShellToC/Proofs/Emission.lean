import ShellToC.Lowering.Command
import ShellToC.Proofs.Requests

/-
  This file writes statements once more, as emissions: line
  after line, as text, into a draft that changes under way.

  An emission needs a helper as soon as it has written a call
  of it, keeps track of the scopes that it has opened, and
  stops at the first fault that comes up.  What was done by
  then stays done.

  Key definitions include:
    * `Pen`
    * `Emission`
    * `Emission.inScope`
    * `Emission.condition`
    * `Emission.statement`
    * `Emission.script`
-/

namespace ShellToC

------------------------------------------------------------
-- Pens
------------------------------------------------------------

/-
  A draft while a statement is written: the number of scopes
  that the statement has opened, and its line in the script.
-/
structure Pen where
  draft : Draft
  scope : Nat
  line : Nat
  deriving Repr

/-
  The draft after helpers were needed in the given order, and
  what the log says about those that were not needed before.
-/
def Draft.withUsage
    (draft : Draft)
    (usage : Usage) : Draft :=
  { draft with
    usage := usage
    log := draft.log ++
      (usage.needed.drop draft.usage.needed.length).map
        Helper.record }

/- Something written into a draft, or the fault that came up. -/
abbrev Emission (α : Type) :=
  ExceptT Fault (StateM Pen) α

namespace Emission

variable {α : Type}

/- What an emission gives, and what it makes of a pen. -/
def outcome
    (m : Emission α)
    (pen : Pen) : Except Fault α × Pen :=
  StateT.run (ExceptT.run m) pen

/- Change the draft. -/
def update
    (f : Draft → Draft) : Emission Unit :=
  modify fun pen => { pen with draft := f pen.draft }

/- Go to a line of the script. -/
def atLine
    (line : Nat) : Emission Unit :=
  modify fun pen => { pen with line := line }

/- Write a text on a line of its own. -/
def emit
    (text : Text) : Emission Unit :=
  modify fun pen =>
    { pen with
      draft := pen.draft.write pen.scope (.verbatim text) }

/- Write texts, each on a line of its own. -/
def emitAll : List Text → Emission Unit
  | [] => return
  | text :: texts => do
      emit text
      emitAll texts

/- Open a scope. -/
def enter : Emission Unit :=
  modify fun pen => { pen with scope := pen.scope + 1 }

/- Close a scope. -/
def leave : Emission Unit :=
  modify fun pen => { pen with scope := pen.scope - 1 }

/- Write a text in a scope of its own. -/
def emitNested
    (text : Text) : Emission Unit := do
  enter
  emit text
  leave

/- Need a helper. -/
def require
    (helper : Helper) : Emission Unit :=
  update (·.require helper)

/- Write what a request writes, with the helpers that it needs. -/
def request
    (request : HelperRequest α) : Emission α :=
  ExceptT.mk fun pen =>
    let (result, usage) := request.outcome pen.draft.usage
    (result, { pen with draft := pen.draft.withUsage usage })

/- Take the next number for a loop. -/
def takeLoop : Emission Nat := do
  update fun draft => { draft with loops := draft.loops + 1 }
  return (← get).draft.loops

/- Go on with a fault, if there is one. -/
def attempt
    (m : Emission α) : Emission (Except Fault α) :=
  ExceptT.mk (Except.ok <$> ExceptT.run m)

/- Mark a fault in a comment and report it. -/
def fail
    (fault : Fault) : Emission Unit := do
  let pen ← get
  emit ("/* shtoc: " ++ pen.draft.file ++ ":" ++
    Text.ofNat pen.line ++ ": " ++
    Line.partCommentEnds fault.message ++ " */")
  update (·.report ⟨.error, pen.line, fault.message⟩)

/- Mark the fault that ends an emission, if there is one. -/
def marked
    (m : Emission Unit) : Emission Unit := do
  match ← attempt m with
  | .ok () => return
  | .error fault => fail fault

/- Open a block. -/
def push
    (frame : Frame) : Emission Unit :=
  update (·.push frame)

/- Close the innermost block, if there is one. -/
def pop? : Emission (Option Frame) := do
  match (← get).draft.pop? with
  | none => return none
  | some (frame, draft) =>
      update fun _ => draft
      return some frame

/- Close the innermost block on behalf of a keyword. -/
def popFor
    (keyword : Text) : Emission Frame := do
  match (← get).draft.popFor keyword with
  | .error fault => throw fault
  | .ok (frame, draft) =>
      update fun _ => draft
      return frame

------------------------------------------------------------
-- Values
------------------------------------------------------------

/- The text of a value, and of its declaration if it is built. -/
structure Piece where
  expr : Text
  declaration : Option Text := none
  deriving DecidableEq, Repr

/-
  Write lines, in a scope that declares the values that are
  built and frees them.  Without any there is no scope, unless
  it is asked for.
-/
def inScope
    (values : List Piece)
    (body : List Text)
    (force : Bool) : Emission Unit := do
  let built := values.filter (·.declaration.isSome)
  if built.isEmpty && !force then
    emitAll body
  else
    emit "\x7b"
    enter
    emitAll (built.filterMap Piece.declaration)
    emitAll body
    emitAll (built.map fun value => "free(" ++ value.expr ++ ");")
    leave
    emit "\x7d"

/- Write a value that is filled into a format. -/
def argument : Argument → Emission Text
  | .var name => do
      require .var
      return "sh_var(" ++ Literal.quote name ++ ")"
  | .status => return "last_status"
  | .backgroundPid => return "last_bg_pid"

/- Write arguments behind the text of a call. -/
def arguments
    (call : Text) : List Argument → Emission Text
  | [] => return call
  | arg :: args => do
      arguments (call ++ ", " ++ (← argument arg)) args

/- Write the call of a function that takes a format. -/
def formatCall
    (function format : Text)
    (args : List Argument) : Emission Text := do
  let call ← arguments (function ++ "(" ++ Literal.quote format)
    args
  return call ++ ")"

/- Write the value of a format, which is built in a given place. -/
def build
    (temp format : Text)
    (args : List Argument) : Emission Piece := do
  require .format
  let call ← formatCall "sh_format" format args
  return ⟨temp, some ("char *" ++ temp ++ " = " ++ call ++ ";")⟩

/- Write the value of a template.  A single variable is at hand. -/
def value
    (temp : Text) : Template → Emission Piece
  | .literal text => return ⟨Literal.quote text, none⟩
  | .format format [.var name] =>
      if format = "%s" then do
        require .var
        return ⟨"sh_var(" ++ Literal.quote name ++ ")", none⟩
      else
        build temp format [.var name]
  | .format format args => build temp format args

/- Write the values of the stages of a pipeline. -/
def stages
    (index : Nat) : List Text → Emission (List Piece)
  | [] => return []
  | stage :: rest => do
      let first ← value ("sh_cmd_" ++ Text.ofNat index)
        (.ofCommand stage)
      return first :: (← stages (index + 1) rest)

------------------------------------------------------------
-- Commands
------------------------------------------------------------

/- Print a template. -/
def print
    (newline : Bool) : Template → Emission Unit
  | .literal text => do
      if newline then
        emit ("puts(" ++ Literal.quote text ++ ");")
      else
        emit ("fputs(" ++ Literal.quote text ++ ", stdout);")
      emit "last_status = 0;"
  | .format format args => do
      let format := if newline then format ++ ['\n'] else format
      emit ((← formatCall "printf" format args) ++ ";")
      emit "last_status = 0;"

/- Set the status by a test.  A faulty test fails. -/
def test
    (expr : Text) : Emission Unit := do
  match ← attempt (request (Condition.request expr)) with
  | .ok condition =>
      emit ("last_status = (" ++ condition ++ ") ? 0 : 1;")
  | .error fault =>
      fail fault
      emit "last_status = 1;"

/- Run a command and keep its status. -/
def run
    (command : Text) : Emission Unit := do
  let value ← value "sh_cmd" (.ofCommand command)
  require .run
  inScope [value] ["last_status = sh_run(" ++ value.expr ++ ");"]
    false

/- Run the stages of a pipeline. -/
def pipeline
    (commands : List Text) : Emission Unit := do
  let values ← stages 0 commands
  require .pipeline
  let count := Text.ofNat commands.length
  let list := Text.joinWith ", " (values.map Piece.expr)
  inScope values
    ["const char *sh_cmds[" ++ count ++ "] = \x7b " ++ list ++
       " \x7d;",
     "int sh_statuses[" ++ count ++ "];",
     "int sh_rc = sh_pipeline(sh_cmds, " ++ count ++
       ", sh_statuses);",
     "last_status = sh_rc < 0 ? 127 : sh_rc;"] true

/- Print the words of a text.  A leading `-n` leaves the line open. -/
def echo
    (args : Text) : Emission Unit := do
  if Pipeline.hasRedirection args then
    throw (.construct ("redirection in \x60echo " ++ args ++ "\x60"))
  if Pipeline.hasListOperator args then
    throw (.construct
      ("command list in \x60echo " ++ args ++ "\x60"))
  if Pattern.mentionsSubstitution args then
    throw (.construct
      ("command substitution in \x60echo " ++ args ++ "\x60"))
  let words := Word.split args
  let flagged := words.head? == some (Text.ofString "-n")
  let shown := if flagged then words.tail else words
  print (!flagged) (Template.join " " (shown.map Template.ofWord))

/- Give a variable the value of an arithmetic expression. -/
def arithAssign
    (name expr : Text) : Emission Unit := do
  let value ← request (ArithExpr.request expr)
  require .setInt
  emit ("sh_set_int(" ++ Literal.quote name ++ ", " ++ value ++
    ");")
  emit "last_status = 0;"

/- Print the value of an arithmetic expression. -/
def arithPrint
    (expr : Text) : Emission Unit := do
  let value ← request (ArithExpr.request expr)
  emit ("printf(\x22%ld\x5cn\x22, (long)" ++ value ++ ");")
  emit "last_status = 0;"

/- Give a variable the output of a command. -/
def captureAssign
    (name command : Text) : Emission Unit := do
  let value ← value "sh_cmd" (.ofCommand command)
  require .capture
  inScope [value]
    ["char *sh_out = sh_capture(" ++ value.expr ++ ");",
     "setenv(" ++ Literal.quote name ++ ", sh_out, 1);",
     "free(sh_out);"] true

/- Write the directory to change to. -/
def directory : Option Text → Emission Piece
  | none => do
      require .var
      return ⟨"sh_var(\x22HOME\x22)", none⟩
  | some dir =>
      match Word.split dir with
      | [word] => value "sh_dir" (.ofWord word)
      | _ => throw (.construct ("cd " ++ dir))

/- Change the working directory. -/
def changeDir
    (dir : Option Text) : Emission Unit := do
  let target ← directory dir
  inScope [target]
    ["last_status = chdir(" ++ target.expr ++ ") == 0 ? 0 : 1;"]
    false

/- Write the status to end with. -/
def exitCode : Option Text → Emission Text
  | none => return "last_status"
  | some word => do
      let operand ← ExceptT.mk (pure (Operand.ofWord word))
      request operand.requestInt

/- End the program. -/
def exit
    (code : Option Text) : Emission Unit := do
  let status ← exitCode code
  emit ("return (int)(" ++ status ++ ");")

/- Run a command in the background. -/
def background
    (command : Text) : Emission Unit := do
  let value ← value "sh_cmd" (.ofCommand command)
  require .background
  inScope [value]
    ["last_bg_pid = sh_background(" ++ value.expr ++ ");",
     "last_status = last_bg_pid < 0 ? 127 : 0;"] false

/- Give a variable the value of a word. -/
def assign
    (name word : Text) : Emission Unit := do
  let value ← value "sh_value" (.ofWord word)
  inScope [value]
    ["setenv(" ++ Literal.quote name ++ ", " ++ value.expr ++
       ", 1);"] false
  emit "last_status = 0;"

/- Carry out a command that is known by name. -/
def informational
    (command text : Text) : Emission Unit := do
  if command = "true" ∨ command = ":" then
    emit "last_status = 0;"
  else if command = "false" then
    emit "last_status = 1;"
  else if command = "pwd" then
    emit "\x7b"
    enter
    emit "char sh_cwd[4096];"
    emit "if (getcwd(sh_cwd, sizeof sh_cwd) != NULL) \x7b"
    emitNested "puts(sh_cwd);"
    emitNested "last_status = 0;"
    emit "\x7d else \x7b"
    emitNested "last_status = 1;"
    emit "\x7d"
    leave
    emit "\x7d"
  else
    run text

------------------------------------------------------------
-- Blocks
------------------------------------------------------------

/- Set the status by a test, a constant, or a command. -/
def check
    (text : Text) : Emission Unit := do
  match Form.testExpression? text with
  | some expr => test expr
  | none =>
      if text = "true" ∨ text = ":" then
        emit "last_status = 0;"
      else if text = "false" then
        emit "last_status = 1;"
      else
        run text

/- Set the status by a condition, which may be negated. -/
def condition
    (text : Text) : Emission Unit := do
  match Event.negated? text with
  | none => check text
  | some rest =>
      check rest
      emit "last_status = last_status == 0 ? 1 : 0;"

/- Open a conditional, or a further condition of one. -/
def openBranch
    (keyword cond : Text)
    (chained : Bool) : Emission Unit := do
  condition cond
  emit "if (last_status == 0) \x7b"
  push ⟨.conditional, keyword, (← get).line, chained, false, []⟩

/-
  Go over to the `else` branch of the innermost block, whose
  frame is given back.  A block that has none is taken up
  again as it was.
-/
def reopenIf
    (keyword : Text) : Emission Frame := do
  let frame ← popFor keyword
  if frame.kind ≠ .conditional ∨ frame.inElse then
    push frame
    throw (.unopened keyword)
  emit "\x7d else \x7b"
  return { frame with inElse := true }

/- Open the last branch of a conditional. -/
def openElse : Emission Unit := do
  push (← reopenIf "else")

/- Open a further condition of a conditional. -/
def openElif
    (cond : Text) : Emission Unit := do
  push (← reopenIf "elif")
  openBranch "elif" cond true

/- Open a loop that goes on while a condition holds. -/
def openWhile
    (cond : Text) : Emission Unit := do
  emit "for (;;) \x7b"
  push ⟨.loop, "while", (← get).line, false, false, []⟩
  condition cond
  emit "if (last_status != 0) \x7b"
  emitNested "break;"
  emit "\x7d"

/- Write an item of a loop.  If one is built, all of them are. -/
def item
    (owned : Bool) : Template → Emission Text
  | .literal text =>
      if owned then do
        require .format
        return "sh_format(\x22%s\x22, " ++ Literal.quote text ++ ")"
      else
        return Literal.quote text
  | .format format args => do
      require .format
      formatCall "sh_format" format args

/- Write the items of a loop. -/
def items
    (owned : Bool) : List Template → Emission (List Text)
  | [] => return []
  | template :: rest => do
      let first ← item owned template
      return first :: (← items owned rest)

/- Open the next loop over items. -/
def openForItems
    (var : Text)
    (templates : List Template) : Emission Unit := do
  let owned := !templates.all Template.isLiteral
  let exprs ← items owned templates
  let loop ← takeLoop
  let array := "sh_items_" ++ Text.ofNat loop
  let index := "sh_i_" ++ Text.ofNat loop
  let count := Text.ofNat exprs.length
  let kind : Text :=
    if owned then "char *" else "static const char *const "
  emit (kind ++ array ++ "[] = \x7b " ++
    Text.joinWith ", " exprs ++ " \x7d;")
  emit ("for (size_t " ++ index ++ " = 0; " ++ index ++ " < " ++
    count ++ "; " ++ index ++ "++) \x7b")
  push ⟨.loop, "for", (← get).line, false, false,
    if owned then
      (List.range exprs.length).map (.freeItem loop)
    else
      []⟩
  emit ("setenv(" ++ Literal.quote var ++ ", " ++ array ++ "[" ++
    index ++ "], 1);")

/- Open a loop over the words of a text. -/
def openFor
    (var : Text)
    (list : Option Text) : Emission Unit := do
  match Word.split (list.getD []) with
  | [] =>
      emit "while (0) \x7b"
      push ⟨.loop, "for", (← get).line, false, false, []⟩
  | words => openForItems var (words.map Template.ofWord)

/- Write the lines of an epilogue, with the helpers of each. -/
def epilogue : List Line → Emission Unit
  | [] => return
  | line :: rest => do
      update fun draft => line.needs.foldl Draft.require draft
      emit line.render
      epilogue rest

/- Close a block and write its epilogue. -/
def closeFrame
    (frame : Frame) : Emission Unit := do
  emit "\x7d"
  epilogue frame.epilogue

/-
  Close the innermost block, with a warning if it is of the
  other kind.
-/
def close
    (keyword : Text)
    (expected : BlockKind) : Emission Frame := do
  let frame ← popFor keyword
  if frame.kind ≠ expected then
    let line := (← get).line
    update (·.report ⟨.warn, line,
      "\x60" ++ keyword ++ "\x60 closes the \x60" ++ frame.opener ++
        "\x60 block opened on line " ++ Text.ofNat frame.line ++
        " (expected \x60" ++ frame.kind.closer ++ "\x60)"⟩)
  closeFrame frame
  return frame

/-
  Close the blocks that a block continues.  There is one turn
  for each of the blocks that are still open, and no more.
-/
def closeChain
    (frame : Frame) : List Frame → Emission Unit
  | [] => return
  | _ :: rest => do
      if frame.chained then
        match ← pop? with
        | none => return
        | some outer =>
            closeFrame outer
            closeChain outer rest

/- Close a conditional with all of its conditions. -/
def closeIf : Emission Unit := do
  let frame ← close "fi" .conditional
  closeChain frame (← get).draft.blocks

/- Close a loop. -/
def closeLoop : Emission Unit := do
  let _ ← close "done" .loop

------------------------------------------------------------
-- Statements
------------------------------------------------------------

/- Write what a statement does. -/
def command
    (command : Command) : Emission Unit :=
  match command.form with
  | .comment => return
  | .bodyOpen => return
  | .pipeline stages => pipeline stages
  | .echo args => echo (args.getD [])
  | .arithAssign name expr => arithAssign name expr
  | .captureAssign name body => captureAssign name body
  | .arithPrint expr => arithPrint expr
  | .test expr => test expr
  | .changeDir dir => changeDir dir
  | .ifOpen cond => openBranch "if" cond false
  | .elifBranch cond => openElif cond
  | .whileOpen cond => openWhile cond
  | .elseBranch => openElse
  | .ifClose => closeIf
  | .forOpen var items => openFor var items
  | .loopClose => closeLoop
  | .exit code => exit code
  | .background body => background body
  | .assign name value => assign name value
  | .informational name _ => informational name command.text
  | .varPrint => print true (.ofStatement command.text)
  | .unsupported => throw (.construct command.text)

/- Write the statement on a line.  Faults end it, and are marked. -/
def statement
    (line : Nat)
    (command : Command) : Emission Unit := do
  atLine line
  marked (Emission.command command)

/- Write statements one after the other, each on its line. -/
def statements : List (Nat × Command) → Emission Unit
  | [] => return
  | (line, command) :: rest => do
      statement line command
      statements rest

/-
  Close the blocks that are still open, with one turn for
  each.  A fault marks every block that continues no other,
  and tells where it was opened.
-/
def finish : List Frame → Emission Unit
  | [] => return
  | _ :: rest => do
      match ← pop? with
      | none => return
      | some frame =>
          if !frame.chained then
            atLine frame.line
            fail (.unclosed frame.opener)
          closeFrame frame
          finish rest

/- Write all of a script. -/
def script
    (commands : List (Nat × Command)) : Emission Unit := do
  statements commands
  finish (← get).draft.blocks

end Emission

end ShellToC
