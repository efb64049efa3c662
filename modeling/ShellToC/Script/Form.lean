import ShellToC.Log
import ShellToC.Script.Pattern
import ShellToC.Script.Pipeline
import ShellToC.Script.Word

/-
  This file defines the forms that a statement can have and
  decides which one it has.

  The forms overlap: a pipeline may start with `echo`, an
  assignment may hold an arithmetic expression.  The first
  rule that accepts a statement gives its form, so the order
  of the rules matters.

  Key definitions include:
    * `Form`
    * `Form.name`
    * `Form.testExpression?`
    * `Form.rules`
    * `Form.ofText`
    * `Command`
    * `Command.ofText`
-/

namespace ShellToC

------------------------------------------------------------
-- Forms
------------------------------------------------------------

/- What a statement is, with the parts of it that matter. -/
inductive Form where
  | comment
  | pipeline (stages : List Text)
  | echo (args : Option Text)
  | arithAssign (name expr : Text)
  | captureAssign (name command : Text)
  | arithPrint (expr : Text)
  | test (expr : Text)
  | changeDir (dir : Option Text)
  | ifOpen (condition : Text)
  | elifBranch (condition : Text)
  | whileOpen (condition : Text)
  | bodyOpen
  | elseBranch
  | ifClose
  | forOpen (var : Text) (items : Option Text)
  | loopClose
  | exit (code : Option Text)
  | background (command : Text)
  | assign (name value : Text)
  | informational (command : Text) (args : Option Text)
  | varPrint
  | unsupported
  deriving DecidableEq, Repr

namespace Form

/- The name of a form. -/
def name : Form → Text
  | .comment => "comment"
  | .pipeline _ => "pipeline"
  | .echo _ => "echo"
  | .arithAssign _ _ => "arith-assign"
  | .captureAssign _ _ => "capture-assign"
  | .arithPrint _ => "arith-print"
  | .test _ => "test"
  | .changeDir _ => "cd"
  | .ifOpen _ => "if"
  | .elifBranch _ => "elif"
  | .whileOpen _ => "while"
  | .bodyOpen => "then"
  | .elseBranch => "else"
  | .ifClose => "fi"
  | .forOpen _ _ => "for"
  | .loopClose => "done"
  | .exit _ => "exit"
  | .background _ => "background"
  | .assign _ _ => "assign"
  | .informational _ _ => "informational"
  | .varPrint => "var-print"
  | .unsupported => "unsupported"

------------------------------------------------------------
-- Rules
------------------------------------------------------------

/- A pipeline has at least two stages. -/
def pipeline?
    (text : Text) : Option Form :=
  (Pipeline.stages? text).map .pipeline

/- Whether the text ends with a bare ampersand. -/
def endsInBackground
    (text : Text) : Bool :=
  (Mark.scan text).getLast?.any (Mark.isBareChar '&')

/-
  An echo prints its arguments.  It holds no arithmetic and
  does not run in the background.
-/
def echo?
    (text : Text) : Option Form :=
  if Text.occursIn "$((" text || endsInBackground text then
    none
  else
    (Pattern.keyword? "echo"
      (Pattern.optional? Pattern.restOfLine?) text).map .echo

/- A variable takes the value of an arithmetic expression. -/
def arithAssign?
    (text : Text) : Option Form :=
  (Pattern.assignment? text).bind fun (name, value) =>
    (Pattern.arithmetic? value).map (.arithAssign name)

/- A variable takes the output of a command in parentheses. -/
def parenthesisAssign?
    (text : Text) : Option Form :=
  (Pattern.assignment? text).bind fun (name, value) =>
    (Pattern.parenthesised? value).map (.captureAssign name)

/- A variable takes the output of a command in backticks. -/
def backtickAssign?
    (text : Text) : Option Form :=
  (Pattern.assignment? text).bind fun (name, value) =>
    (Pattern.backticked? value).map (.captureAssign name)

/- An echo prints the value of an arithmetic expression. -/
def arithPrint?
    (text : Text) : Option Form :=
  (Pattern.keyword? "echo" (fun rest =>
    if Pattern.startsBlank rest then
      Pattern.arithmetic? (Text.trimStart rest)
    else
      none) text).map .arithPrint

/- The expression of a test in any of its three spellings. -/
def testExpression?
    (text : Text) : Option Text :=
  (Pattern.bracketed? "[[" "]]" text).or <|
    (Pattern.bracketed? "[" "]" text).or <|
      Pattern.keyword? "test" Pattern.someRestOfLine? text

/- A test of an expression. -/
def test?
    (text : Text) : Option Form :=
  (testExpression? text).map .test

/- A change of the working directory. -/
def changeDir?
    (text : Text) : Option Form :=
  (Pattern.keyword? "cd"
    (Pattern.optional? Pattern.someRestOfLine?) text).map
      .changeDir

/- The start of a conditional. -/
def ifOpen?
    (text : Text) : Option Form :=
  (Pattern.keyword? "if" Pattern.someRestOfLine? text).map
    .ifOpen

/- A further condition of a conditional. -/
def elifBranch?
    (text : Text) : Option Form :=
  (Pattern.keyword? "elif" Pattern.someRestOfLine? text).map
    .elifBranch

/- The start of a loop with a condition. -/
def whileOpen?
    (text : Text) : Option Form :=
  (Pattern.keyword? "while" Pattern.someRestOfLine? text).map
    .whileOpen

/- A keyword that stands alone. -/
def lone?
    (keyword : Text)
    (form : Form)
    (text : Text) : Option Form :=
  if text = keyword then some form else none

/- The keyword `in` and the items behind it, if there are any. -/
def forItems?
    (text : Text) : Option (Option Text) :=
  if Pattern.startsBlank text then
    Pattern.keyword? "in"
      (Pattern.optional? Pattern.restOfLine?)
      (Text.trimStart text)
  else
    none

/- The start of a loop over items. -/
def forOpen?
    (text : Text) : Option Form :=
  Pattern.keyword? "for" (fun rest =>
    if Pattern.startsBlank rest then
      (Pattern.name? (Text.trimStart rest)).bind
        fun (var, rest) =>
          (Pattern.optional? forItems? rest).map fun items =>
            .forOpen var items.join
    else
      none) text

/- The end of the program. -/
def exit?
    (text : Text) : Option Form :=
  (Pattern.keyword? "exit"
    (Pattern.optional? Pattern.solidRest?) text).map .exit

/- A command that runs in the background. -/
def background?
    (text : Text) : Option Form :=
  (Pattern.backgrounded? text).map .background

/- A variable takes the value of at most one word. -/
def assign?
    (text : Text) : Option Form :=
  (Pattern.assignment? text).bind fun (name, value) =>
    if Text.onOneLine value && (Word.split value).length ≤ 1 &&
        !Pattern.mentionsSubstitution text then
      some (.assign name value)
    else
      none

/- The commands that need no more than to be run. -/
def informationalCommands : List Text :=
  ["pwd", "true", "false", ":", "date", "whoami", "hostname",
   "uname", "id"]

/- A command from the list, with or without arguments. -/
def informational?
    (text : Text) : Option Form :=
  informationalCommands.findSome? fun command =>
    (Pattern.keyword? command
      (Pattern.optional? Pattern.restOfLine?) text).map
        (.informational command)

/- A reference that stands as a command of its own. -/
def varPrint?
    (text : Text) : Option Form :=
  if Pattern.mentionsReference text &&
      !Pattern.mentionsSubstitution text &&
      !Pipeline.hasListOperator text then
    some .varPrint
  else
    none

/- The rules in the order in which they are tried. -/
def rules : List (Text → Option Form) :=
  [pipeline?, echo?, arithAssign?, parenthesisAssign?,
   backtickAssign?, arithPrint?, test?, changeDir?, ifOpen?,
   elifBranch?, whileOpen?, lone? "then" .bodyOpen,
   lone? "do" .bodyOpen, lone? "else" .elseBranch,
   lone? "fi" .ifClose, forOpen?, lone? "done" .loopClose,
   exit?, background?, assign?, informational?, varPrint?]

------------------------------------------------------------
-- Classification
------------------------------------------------------------

/- The form of a trimmed statement. -/
def ofText
    (text : Text) : Form :=
  if text.isEmpty || text.head? == some '#' then
    .comment
  else
    (rules.findSome? (· text)).getD .unsupported

end Form

------------------------------------------------------------
-- Commands
------------------------------------------------------------

/- A trimmed statement together with its form. -/
structure Command where
  text : Text
  form : Form
  deriving DecidableEq, Repr

namespace Command

/- The statement without outer blanks and one final semicolon. -/
def trimStatement
    (text : Text) : Text :=
  match Text.dropTail? ";" (Text.trim text) with
  | some rest => Text.trimEnd rest
  | none => Text.trim text

/- Trim a statement and find its form. -/
def ofText
    (text : Text) : Command :=
  ⟨trimStatement text, Form.ofText (trimStatement text)⟩

/- What the log says about the form, unless it is a comment. -/
def records
    (command : Command) : List Record :=
  match command.form with
  | .comment => []
  | .unsupported =>
      [⟨.debug, "no rule matches \x60" ++ command.text ++ "\x60"⟩]
  | form =>
      [⟨.debug, "classified \x60" ++ command.text ++ "\x60 as " ++
        form.name⟩]

end Command

end ShellToC
