import ShellToC.Proofs.ListOutcomes
import ShellToC.Proofs.ListParts
import ShellToC.Program

/-
  This file says what becomes of command lists: statements in
  which a bare operator decides which commands are run.

  Most forms report such a statement, or hand the operator
  over to the command interpreter with all that follows it.
  The others take it for a part of their words, or leave out
  all that stands behind the words that they know.

  Key definitions include:
    * `Form.overlooksLists`
    * `Command.Settles`

  Main declarations:
    * `Command.settles_ofText`
    * `Command.fails_or_handsOverList_iff`
-/

namespace ShellToC

open Pipeline (Lists)

------------------------------------------------------------
-- Forms
------------------------------------------------------------

namespace Form

/- Whether a text is a test that says something. -/
def isTest
    (text : Text) : Bool :=
  (testExpression? text).any fun expr =>
    (Condition.ofText expr).isOk

/- Whether a condition, negated or not, is a test that says something. -/
def isTestCondition
    (condition : Text) : Bool :=
  isTest ((Event.negated? condition).getD condition)

/-
  Whether a statement of this form, with the given blocks
  open, is written without regard to a command list in it.
-/
def overlooksLists
    (blocks : List Frame) : Form → Bool
  | .test expr => (Condition.ofText expr).isOk
  | .changeDir dir =>
      dir.any fun dir => (Word.split dir).length == 1
  | .ifOpen condition => isTestCondition condition
  | .elifBranch condition =>
      blocks.head?.any Frame.takesElse && isTestCondition condition
  | .whileOpen condition => isTestCondition condition
  | .forOpen _ _ => true
  | .exit code => code.any fun code => (Operand.ofWord code).isOk
  | .assign _ _ => true
  | .informational command _ =>
      command = "true" ∨ command = ":" ∨ command = "false" ∨
        command = "pwd"
  | _ => false

end Form

------------------------------------------------------------
-- Conditions
------------------------------------------------------------

namespace Event

variable {text before rest : Text}
variable {op : Char}

/- A test is written if it says something, and reported if not. -/
theorem settles_test
    (line : Nat)
    (expr : Text) :
    Settles (Condition.ofText expr).isOk line (test line expr)
      text op rest := by
  cases hTest : Condition.ofText expr with
  | ok e =>
      rw [test, hTest]
      exact .of_isSilent rfl (all_isSilent (by
        simp [keepsCommands, Line.keepsCommands, Line.needs]))
  | error fault =>
      rw [test, hTest]
      exact .of_fail rfl List.mem_cons_self

/- A condition is a test, or else a command that is run. -/
theorem settles_check
    (h : Lists text before op rest)
    (line : Nat)
    (a : Text) :
    Settles (Form.isTest (a ++ op :: op :: rest)) line
      (check line (a ++ op :: op :: rest)) text op rest := by
  rw [check, Form.isTest]
  cases Form.testExpression? (a ++ op :: op :: rest) with
  | some expr => exact settles_test line expr
  | none =>
      have hNe {word : Text} (hWord : '&' ∉ word ∧ '|' ∉ word) :
          a ++ op :: op :: rest ≠ word := by
        rintro rfl
        exact h.not_mem hWord (by simp)
      have hConstants : ¬ (a ++ op :: op :: rest = "true" ∨
          a ++ op :: op :: rest = ":") := by
        rw [not_or]
        constructor <;> exact hNe
          (by rw [Text.ofString_ofList]; decide)
      have hFalse : a ++ op :: op :: rest ≠ "false" :=
        hNe (by rw [Text.ofString_ofList]; decide)
      simp only [if_neg hConstants, if_neg hFalse]
      exact Or.inr (h.handsOverList_run text a)

theorem exists_of_negated?
    {inner : Text}
    (h : negated? text = some inner) :
    ∃ blanks, blanks.all Text.isBlank = true ∧
      text = ['!'] ++ (blanks ++ inner) := by
  unfold negated? at h
  split at h
  next behind =>
    split at h
    next hBlank =>
      cases h
      rcases Pattern.exists_of_startsBlank hBlank with
        ⟨blanks, -, hBlanks, hText⟩
      exact ⟨blanks, hBlanks, congrArg ('!' :: ·) hText⟩
    next => contradiction
  next => contradiction

theorem settles_condition
    (h : Lists text before op rest)
    (line : Nat)
    (a : Text) :
    Settles (Form.isTestCondition (a ++ op :: op :: rest)) line
      (condition line (a ++ op :: op :: rest)) text op rest := by
  rw [condition, Form.isTestCondition]
  cases hNegated : negated? (a ++ op :: op :: rest) with
  | none => exact settles_check h line a
  | some inner =>
      rcases exists_of_negated? hNegated with
        ⟨blanks, hBlanks, hText⟩
      rcases h.behind_keyword hText (by decide) hBlanks with
        ⟨b, rfl⟩
      exact (settles_check h line b).around []
        [.write 0 .invertStatus] rfl (all_isSilent rfl)

end Event

------------------------------------------------------------
-- Rules
------------------------------------------------------------

/- What is at fault is reported, and settles a list in it. -/
theorem Event.settles_orFail
    {overlooks : Bool}
    {line : Nat}
    {result : Except Fault (List Event)}
    {text rest : Text}
    {op : Char}
    (hOverlooks : overlooks = false)
    (h : ∃ fault, result = .error fault) :
    Settles overlooks line (orFail line result) text op rest := by
  rcases h with ⟨fault, rfl⟩
  exact .of_fail hOverlooks List.mem_cons_self

namespace Command

/- What becomes of a list in a command. -/
def Settles
    (blocks : List Frame)
    (loops line : Nat)
    (op : Char)
    (rest : Text)
    (command : Command) : Prop :=
  Event.Settles (command.form.overlooksLists blocks) line
    (command.events blocks loops line) command.text op rest

variable {blocks : List Frame}
variable {loops line : Nat}
variable {text before rest : Text}
variable {op : Char}
variable {form : Form}

theorem settles_pipeline
    (h : Lists text before op rest)
    (hForm : Form.pipeline? text = some form) :
    Settles blocks loops line op rest ⟨text, form⟩ := by
  rcases Option.map_eq_some_iff.mp hForm with
    ⟨stages, hStages, rfl⟩
  rcases h.stages hStages with ⟨a, b, hMem, hPrefix⟩
  exact Or.inr ⟨stages, a, b, Event.handsOver_pipeline stages,
    hMem, Template.exists_atoms_prepare h.isKept a b,
    Or.inr ⟨hStages, hPrefix⟩⟩

/- An echo with an operator among its arguments is reported. -/
theorem exists_echo_eq_error
    {args : Text}
    (hArgs : Pipeline.hasListOperator args = true) :
    ∃ fault, Event.echo args = .error fault := by
  rw [Event.echo, if_pos hArgs]
  split
  · exact ⟨_, rfl⟩
  · exact ⟨_, rfl⟩

theorem settles_echo
    (h : Lists text before op rest)
    (hForm : Form.echo? text = some form) :
    Settles blocks loops line op rest ⟨text, form⟩ := by
  rw [Form.echo?] at hForm
  split at hForm
  next => contradiction
  next =>
    rcases Option.map_eq_some_iff.mp hForm with
      ⟨found, hFound, rfl⟩
    rcases Pattern.exists_of_keyword? hFound with
      ⟨behind, hText, hBehind⟩
    rw [Text.ofString_ofList] at hText
    rcases Pattern.cases_of_optional? hBehind with
      ⟨rfl, -⟩ | ⟨args, rfl, hLine⟩
    · exact absurd h.mem (h.not_mem (by rw [hText]; decide))
    · rcases Pattern.exists_of_restOfLine? hLine with
        ⟨blanks, hSome, hBlanks, rfl⟩
      have hStart (next : Option Char) : Quoting.start.behind next
          (['e', 'c', 'h', 'o'] ++ blanks) = .start := by
        rw [Quoting.behind_append]
        exact Quoting.behind_blanks
          (Quoting.isOpen_start.behind _ (by decide)) next
          hBlanks (Or.inl hSome)
      have hLead : op ∉ ['e', 'c', 'h', 'o'] ++ blanks := by
        rw [List.mem_append, not_or]
        exact ⟨h.not_mem (by decide), h.not_mem_blanks hBlanks⟩
      have hSplit : text =
          (['e', 'c', 'h', 'o'] ++ blanks) ++ (args ++ []) := by
        simp [hText]
      rcases h.around hSplit hLead List.not_mem_nil hStart with
        ⟨a, b, hArgs, -⟩
      exact Event.settles_orFail rfl
        (exists_echo_eq_error hArgs.hasListOperator)

theorem settles_arithAssign
    (h : Lists text before op rest)
    (hForm : Form.arithAssign? text = some form) :
    Settles blocks loops line op rest ⟨text, form⟩ := by
  rcases Option.bind_eq_some_iff.mp hForm with
    ⟨⟨name, value⟩, hAssigned, hValue⟩
  rcases Option.map_eq_some_iff.mp hValue with ⟨expr, hExpr, rfl⟩
  rcases Pattern.exists_of_assignment? hAssigned with
    ⟨hText, hName⟩
  rcases h.arithmetic (hText.trans (by simp))
    (h.not_mem_assigned hName) hExpr with ⟨fault, hError⟩
  refine Event.settles_orFail rfl ⟨fault, ?_⟩
  rw [Event.arithAssign, hError]
  rfl

theorem settles_arithPrint
    (h : Lists text before op rest)
    (hForm : Form.arithPrint? text = some form) :
    Settles blocks loops line op rest ⟨text, form⟩ := by
  rcases Option.map_eq_some_iff.mp hForm with ⟨expr, hExpr, rfl⟩
  rcases Pattern.exists_of_keyword? hExpr with
    ⟨behind, hText, hBehind⟩
  rw [Text.ofString_ofList] at hText
  split at hBehind
  next hBlank =>
    rcases Pattern.exists_of_startsBlank hBlank with
      ⟨blanks, -, hBlanks, hBehind'⟩
    rw [hBehind', ← List.append_assoc] at hText
    have hLead : op ∉ ['e', 'c', 'h', 'o'] ++ blanks := by
      rw [List.mem_append, not_or]
      exact ⟨h.not_mem (by decide), h.not_mem_blanks hBlanks⟩
    rcases h.arithmetic hText hLead hBehind with ⟨fault, hError⟩
    refine Event.settles_orFail rfl ⟨fault, ?_⟩
    rw [Event.arithPrint, hError]
    rfl
  next => contradiction

/- What is captured has the operator in it and goes with it. -/
theorem settles_captureAssign
    (h : Lists text before op rest)
    {name value command opening closing : Text}
    (hAssigned : Pattern.assignment? text = some (name, value))
    (hCommand : Pattern.enclosed? opening closing value =
      some command)
    (hOpening : '&' ∉ opening ∧ '|' ∉ opening)
    (hClosing : '&' ∉ closing ∧ '|' ∉ closing)
    (hClosings : ∀ last ∈ Pattern.optionalQuote,
      closing ++ last ∈ Event.closings) :
    Settles blocks loops line op rest
      ⟨text, .captureAssign name command⟩ := by
  rcases Pattern.exists_of_assignment? hAssigned with
    ⟨hText, hName⟩
  rcases h.enclosed (hText.trans (by simp))
    (h.not_mem_assigned hName) hCommand hOpening hClosing with
    ⟨a, b, last, hLast, rfl, hRest⟩
  exact Or.inr (h.handsOverList [] (closing ++ last)
    (Event.handsOver_captureAssign name _) hRest rfl
    (hClosings last hLast))

theorem settles_parenthesisAssign
    (h : Lists text before op rest)
    (hForm : Form.parenthesisAssign? text = some form) :
    Settles blocks loops line op rest ⟨text, form⟩ := by
  rcases Option.bind_eq_some_iff.mp hForm with
    ⟨⟨name, value⟩, hAssigned, hValue⟩
  rcases Option.map_eq_some_iff.mp hValue with
    ⟨command, hCommand, rfl⟩
  refine settles_captureAssign h hAssigned
    (Option.filter_eq_some_iff.mp hCommand).1 ?_ ?_ ?_
  · rw [Text.ofString_ofList]
    decide
  · rw [Text.ofString_ofList]
    decide
  · rw [Text.ofString_ofList]
    decide

theorem settles_backtickAssign
    (h : Lists text before op rest)
    (hForm : Form.backtickAssign? text = some form) :
    Settles blocks loops line op rest ⟨text, form⟩ := by
  rcases Option.bind_eq_some_iff.mp hForm with
    ⟨⟨name, value⟩, hAssigned, hValue⟩
  rcases Option.map_eq_some_iff.mp hValue with
    ⟨command, hCommand, rfl⟩
  exact settles_captureAssign h hAssigned
    (Option.filter_eq_some_iff.mp hCommand).1
    (by decide) (by decide) (by decide)

theorem settles_test
    (hForm : Form.test? text = some form) :
    Settles blocks loops line op rest ⟨text, form⟩ := by
  rcases Option.map_eq_some_iff.mp hForm with ⟨expr, -, rfl⟩
  exact Event.settles_test line expr

/- A directory of more words than one, or of none, is reported. -/
theorem exists_changeDir_eq_error
    {dir : Text}
    (hWords : (Word.split dir).length ≠ 1) :
    ∃ fault, Event.changeDir (some dir) = .error fault := by
  rw [Event.changeDir, Event.directory]
  split
  next word hWord => simp [hWord] at hWords
  next => exact ⟨_, rfl⟩

/- A directory of one word is changed to, whatever the word is. -/
theorem settles_changeDir
    (h : Lists text before op rest)
    (hForm : Form.changeDir? text = some form) :
    Settles blocks loops line op rest ⟨text, form⟩ := by
  rcases Option.map_eq_some_iff.mp hForm with ⟨found, hFound, rfl⟩
  rcases Pattern.exists_of_keyword? hFound with
    ⟨behind, hText, hBehind⟩
  rw [Text.ofString_ofList] at hText
  rcases Pattern.cases_of_optional? hBehind with
    ⟨rfl, -⟩ | ⟨dir, rfl, -⟩
  · exact absurd h.mem (h.not_mem (by rw [hText]; decide))
  · by_cases hWords : (Word.split dir).length = 1
    · rcases List.length_eq_one_iff.mp hWords with ⟨word, hWord⟩
      refine .of_isSilent
        (by simp [Form.overlooksLists, hWords]) ?_
      simp only [events, Event.changeDir, Event.directory, hWord]
      exact Event.isSilent_withValues _
        (by simp [Line.keepsCommands, Line.needs])
    · exact Event.settles_orFail
        (by simp [Form.overlooksLists, hWords])
        (exists_changeDir_eq_error hWords)

/- A status that can be told is taken, whatever its word is. -/
theorem settles_exit
    (h : Lists text before op rest)
    (hForm : Form.exit? text = some form) :
    Settles blocks loops line op rest ⟨text, form⟩ := by
  rcases Option.map_eq_some_iff.mp hForm with ⟨found, hFound, rfl⟩
  rcases Pattern.exists_of_keyword? hFound with
    ⟨behind, hText, hBehind⟩
  rw [Text.ofString_ofList] at hText
  rcases Pattern.cases_of_optional? hBehind with
    ⟨rfl, -⟩ | ⟨code, rfl, -⟩
  · exact absurd h.mem (h.not_mem (by rw [hText]; decide))
  · cases hOperand : Operand.ofWord code with
    | ok operand =>
        refine .of_isSilent ?_ ?_
        · simp only [Form.overlooksLists, Option.any_some, hOperand]
          rfl
        · simp only [events, Event.exit, Event.exitCode, hOperand]
          exact Event.all_isSilent (by
            simp [Except.map, Event.orFail, Event.keepsCommands,
              Line.keepsCommands, Line.needs])
    | error fault =>
        refine Event.settles_orFail ?_ ⟨fault, ?_⟩
        · simp only [Form.overlooksLists, Option.any_some, hOperand]
          rfl
        · rw [Event.exit, Event.exitCode, hOperand]
          rfl

/-
  A keyword with a condition behind it has the operator in
  the condition.
-/
theorem exists_condition
    (h : Lists text before op rest)
    {keyword condition : Text}
    (hKeyword : '&' ∉ keyword ∧ '|' ∉ keyword)
    (hFound : Pattern.keyword? keyword Pattern.someRestOfLine?
      text = some condition) :
    ∃ a, condition = a ++ op :: op :: rest := by
  rcases Pattern.exists_of_keyword? hFound with
    ⟨behind, hText, hBehind⟩
  rcases Pattern.exists_of_someRestOfLine? hBehind with
    ⟨blanks, hBlanks, rfl⟩
  exact h.behind_keyword (h.text_eq.symm.trans hText) hKeyword
    hBlanks

theorem settles_ifOpen
    (h : Lists text before op rest)
    (hForm : Form.ifOpen? text = some form) :
    Settles blocks loops line op rest ⟨text, form⟩ := by
  rcases Option.map_eq_some_iff.mp hForm with ⟨_, hFound, rfl⟩
  rcases exists_condition h
    (by rw [Text.ofString_ofList]; decide) hFound with ⟨a, rfl⟩
  exact (Event.settles_condition h line a).around [] _ rfl
    (Event.all_isSilent rfl)

theorem settles_whileOpen
    (h : Lists text before op rest)
    (hForm : Form.whileOpen? text = some form) :
    Settles blocks loops line op rest ⟨text, form⟩ := by
  rcases Option.map_eq_some_iff.mp hForm with ⟨_, hFound, rfl⟩
  rcases exists_condition h
    (by rw [Text.ofString_ofList]; decide) hFound with ⟨a, rfl⟩
  exact (Event.settles_condition h line a).around _ _
    (Event.all_isSilent rfl) (Event.all_isSilent rfl)

/- A further condition is looked at only where it has a place. -/
theorem settles_elifBranch
    (h : Lists text before op rest)
    (hForm : Form.elifBranch? text = some form) :
    Settles blocks loops line op rest ⟨text, form⟩ := by
  rcases Option.map_eq_some_iff.mp hForm with ⟨_, hFound, rfl⟩
  rcases exists_condition h
    (by rw [Text.ofString_ofList]; decide) hFound with ⟨a, rfl⟩
  cases blocks with
  | nil => exact .of_fail rfl List.mem_cons_self
  | cons frame others =>
      cases hElse : frame.takesElse with
      | false =>
          have hFail : .fail line (.unopened "elif") ∈
              Event.openElif line (a ++ op :: op :: rest)
                (frame :: others) := by
            simp [Event.openElif, Event.continueElse, hElse]
          exact .of_fail (by simp [Form.overlooksLists, hElse]) hFail
      | true =>
          have hCondition := (Event.settles_condition h line
            a).around [.pop, .write 0 .openElse,
              .push { frame with inElse := true }]
            [.write 0 .openOnSuccess, .push
              ⟨.conditional, "elif", line, true, false, []⟩]
            (Event.all_isSilent rfl) (Event.all_isSilent rfl)
          simpa [Settles, Form.overlooksLists, hElse, events,
            Event.openElif, Event.continueElse, Event.openBranch]
            using hCondition

/- A keyword alone has no operator in it. -/
theorem not_lone
    (h : Lists text before op rest)
    {keyword : Text}
    (hKeyword : '&' ∉ keyword ∧ '|' ∉ keyword)
    (lone : Form) :
    Form.lone? keyword lone text ≠ some form := by
  intro hForm
  rw [Form.lone?] at hForm
  split at hForm
  next hText =>
    rw [hText] at h
    exact h.not_mem hKeyword h.mem
  next => contradiction

theorem settles_forOpen
    (hForm : Form.forOpen? text = some form) :
    Settles blocks loops line op rest ⟨text, form⟩ := by
  rcases Pattern.exists_of_keyword? hForm with
    ⟨behind, -, hBehind⟩
  split at hBehind
  next =>
    rcases Option.bind_eq_some_iff.mp hBehind with
      ⟨⟨var, after⟩, -, hItems⟩
    rcases Option.map_eq_some_iff.mp hItems with ⟨items, -, rfl⟩
    exact .of_isSilent rfl
      (Event.isSilent_openFor line loops var items.join)
  next => contradiction

theorem settles_assign
    (hForm : Form.assign? text = some form) :
    Settles blocks loops line op rest ⟨text, form⟩ := by
  rcases Option.bind_eq_some_iff.mp hForm with
    ⟨⟨name, value⟩, -, hValue⟩
  simp only at hValue
  split at hValue
  next =>
    cases hValue
    exact .of_isSilent rfl (Event.isSilent_assign name value)
  next => contradiction

theorem settles_background
    (h : Lists text before op rest)
    (hForm : Form.background? text = some form) :
    Settles blocks loops line op rest ⟨text, form⟩ := by
  rcases Option.map_eq_some_iff.mp hForm with
    ⟨command, hCommand, rfl⟩
  rcases h.backgrounded hCommand with
    ⟨a, b, blanks, hBlanks, rfl, hRest⟩
  exact Or.inr (h.handsOverList blanks ['&']
    (Event.handsOver_background _) hRest hBlanks (by decide))

/- A command that is known by name is carried out, or run as it stands. -/
theorem settles_informational
    (h : Lists text before op rest)
    (hForm : Form.informational? text = some form) :
    Settles blocks loops line op rest ⟨text, form⟩ := by
  rcases List.exists_of_findSome?_eq_some hForm with
    ⟨name, -, hName⟩
  rcases Option.map_eq_some_iff.mp hName with ⟨args, -, rfl⟩
  by_cases hKnown : name = "true" ∨ name = ":" ∨
      name = "false" ∨ name = "pwd"
  · refine .of_isSilent (by simp [Form.overlooksLists, hKnown]) ?_
    simp only [events, Event.informational]
    split
    · exact Event.all_isSilent rfl
    split
    · exact Event.all_isSilent rfl
    split
    · exact Event.all_isSilent rfl
    · simp_all
  · have hOverlooks : Form.overlooksLists blocks
        (.informational name args) = false := by
      simp [Form.overlooksLists, hKnown]
    have hRun : Event.informational name text =
        Event.run text := by
      simp only [not_or] at hKnown
      simp [Event.informational, hKnown]
    have hHands := h.handsOverList_run text before
    rw [← h.text_eq, ← hRun] at hHands
    rw [Settles, hOverlooks]
    exact Or.inr hHands

/- A statement that is printed has no operator in it. -/
theorem not_varPrint
    (h : Lists text before op rest) :
    Form.varPrint? text ≠ some form := by
  simp [Form.varPrint?, h.hasListOperator]

------------------------------------------------------------
-- Command Lists
------------------------------------------------------------

/- Every rule settles the lists in the statements that it accepts. -/
theorem settles_ofText
    (h : Lists text before op rest)
    (hStatement : Form.ofText text ≠ .comment) :
    Settles blocks loops line op rest
      ⟨text, Form.ofText text⟩ := by
  by_cases hKnown : Form.ofText text = .unsupported
  · rw [hKnown]
    exact .of_fail rfl List.mem_cons_self
  · rcases Form.exists_rule hStatement hKnown with
      ⟨rule, hRule, hForm⟩
    simp only [Form.rules, List.mem_cons, List.not_mem_nil,
      or_false] at hRule
    rcases hRule with rfl | rfl | rfl | rfl | rfl | rfl | rfl |
      rfl | rfl | rfl | rfl | rfl | rfl | rfl | rfl | rfl | rfl |
      rfl | rfl | rfl | rfl | rfl
    · exact settles_pipeline h hForm
    · exact settles_echo h hForm
    · exact settles_arithAssign h hForm
    · exact settles_parenthesisAssign h hForm
    · exact settles_backtickAssign h hForm
    · exact settles_arithPrint h hForm
    · exact settles_test hForm
    · exact settles_changeDir h hForm
    · exact settles_ifOpen h hForm
    · exact settles_elifBranch h hForm
    · exact settles_whileOpen h hForm
    · exact absurd hForm (not_lone h
        (by rw [Text.ofString_ofList]; decide) _)
    · exact absurd hForm (not_lone h
        (by rw [Text.ofString_ofList]; decide) _)
    · exact absurd hForm (not_lone h
        (by rw [Text.ofString_ofList]; decide) _)
    · exact absurd hForm (not_lone h
        (by rw [Text.ofString_ofList]; decide) _)
    · exact settles_forOpen hForm
    · exact absurd hForm (not_lone h
        (by rw [Text.ofString_ofList]; decide) _)
    · exact settles_exit h hForm
    · exact settles_background h hForm
    · exact settles_assign hForm
    · exact settles_informational h hForm
    · exact absurd hForm (not_varPrint h)

/-
  A statement with a bare operator of command lists in it is
  reported, or hands the operator over with what follows it,
  if and only if its form does not overlook lists.
-/
theorem fails_or_handsOverList_iff
    (blocks : List Frame)
    (loops line : Nat)
    (text : Text)
    (marks after : List Mark)
    (m n : Mark)
    (op : Char)
    (hScan : Mark.scan text = marks ++ m :: n :: after)
    (hOp : op = '&' ∨ op = '|')
    (hm : m.isBareChar op = true)
    (hn : n.isBareChar op = true)
    (hStatement : (ofText text).form ≠ .comment) :
    let command := ofText text
    let events := command.events blocks loops line
    ((∃ fault, .fail line fault ∈ events) ∨
      Event.HandsOverList events command.text op
        (Mark.chars after)) ↔
      command.form.overlooksLists blocks = false := by
  have hLists := Pipeline.lists_of_scan hScan hOp hm hn
  rcases hLists.trimStatement with ⟨a, b, tail, h, hTail, hRest⟩
  rw [hRest]
  exact (Event.Settles.append (settles_ofText h hStatement)
    hTail).iff

/-
  A negated condition that is no test goes to the
  interpreter as a whole.
-/
theorem fails_or_handsOverList_negated :
    let text : Text := "if ! grep x f && ls; "
    let command := ofText text
    let events := command.events [] 0 1
    Mark.scan text =
        (Mark.scan text).take 14 ++ ⟨14, '&', .bare⟩ ::
          ⟨15, '&', .bare⟩ :: (Mark.scan text).drop 16 ∧
      command.form ≠ .comment ∧
      ((∃ fault, .fail 1 fault ∈ events) ∨
        Event.HandsOverList events command.text '&'
          (Mark.chars ((Mark.scan text).drop 16))) := by
  intro text command events
  have hScan : Mark.scan text =
      (Mark.scan text).take 14 ++ ⟨14, '&', .bare⟩ ::
        ⟨15, '&', .bare⟩ :: (Mark.scan text).drop 16 := by
    simp only [text]
    repeat rw [Text.ofString_ofList]
    decide +kernel
  have hStatement : command.form ≠ .comment := by
    simp only [command, text]
    repeat rw [Text.ofString_ofList]
    decide +kernel
  have hOverlooks : command.form.overlooksLists [] = false := by
    simp only [command, text]
    repeat rw [Text.ofString_ofList]
    decide +kernel
  exact ⟨hScan, hStatement,
    (fails_or_handsOverList_iff [] 0 1 text _ _ _ _ '&' hScan
      (Or.inl rfl) rfl rfl hStatement).mpr hOverlooks⟩

/- Lists of which a part is lost, and nothing is said about it. -/
theorem lists_overlooked :
    let isLost (script : Text) : Prop :=
      let command := ofText script
      let events := command.events [] 0 1
      (Statement.ofScript script).map Statement.text = [script] ∧
        Pipeline.hasListOperator script = true ∧
        command.form ≠ .comment ∧
        (Draft.ofScript "a.sh" "  " script).diagnostics = #[] ∧
        ¬ ((∃ fault, .fail 1 fault ∈ events) ∨
          ∃ op rest,
            Event.HandsOverList events command.text op rest)
    isLost "true && echo hi" ∧ isLost "x=1&&y" ∧
      isLost "cd a&&b" := by
  intro isLost
  have hLost {script : Text}
      (h : (Statement.ofScript script).map Statement.text =
          [script] ∧
        Pipeline.hasListOperator script = true ∧
        (ofText script).form ≠ .comment ∧
        (Draft.ofScript "a.sh" "  " script).diagnostics = #[] ∧
        ((ofText script).events [] 0 1).all Event.isSilent =
          true) :
      isLost script := by
    rcases h with ⟨hTexts, hList, hStatement, hReports, hSilent⟩
    refine ⟨hTexts, hList, hStatement, hReports, ?_⟩
    rintro (⟨fault, hFail⟩ | ⟨op, rest, hHands⟩)
    · exact Bool.noConfusion
        (List.all_eq_true.mp hSilent _ hFail)
    · rw [hHands.not_isSilent] at hSilent
      contradiction
  refine ⟨hLost ?_, hLost ?_, hLost ?_⟩
  · repeat rw [Text.ofString_ofList]
    decide +kernel
  · repeat rw [Text.ofString_ofList]
    decide +kernel
  · repeat rw [Text.ofString_ofList]
    decide +kernel

end Command

end ShellToC
