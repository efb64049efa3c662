import ShellToC.Proofs.EmissionOutcomes

/-
  This file shows that the emissions of commands and of
  conditions write what is said about them without emissions.

  A command is handed over with the variables left in it.  So
  its text needs no helpers where it is used, and the stages
  of a pipeline need theirs one after the other.

  Main declarations:
    * `Emission.writes_run`
    * `Emission.writes_pipeline`
    * `Emission.settles_echo`
    * `Emission.writes_condition`
-/

namespace ShellToC

------------------------------------------------------------
-- Commands without Variables
------------------------------------------------------------

/- No variable is filled into what is left to the interpreter. -/
theorem Fragment.not_mem_ofText_leave
    (name text : Text) :
    .value (.var name) ∉ ofText .leave text := by
  fun_induction ofText .leave text with
  | case1 text hLast => simp
  | case2 text before ref after hLast ih =>
      cases ref <;> simp [ih, ofReference, ofName]

theorem Template.not_mem_args_ofCommand
    (name command : Text) :
    .var name ∉ (ofCommand command).args := by
  let fragments := Fragment.ofText .leave (prepare command)
  have hArgs : (ofCommand command).args =
      fragments.filterMap Fragment.value? := by
    rw [ofCommand, resolve, ofFragments]
    split
    next hNone => exact (List.isEmpty_iff.mp hNone).symm
    next => rfl
  rw [hArgs]
  intro hMem
  rcases List.mem_filterMap.mp hMem with
    ⟨fragment, hFragment, hValue⟩
  cases fragment with
  | plain text => cases hValue
  | value arg =>
      cases hValue
      exact Fragment.not_mem_ofText_leave name _ hFragment

/- The text of a command needs no helpers where it is used. -/
theorem Value.needs_expr_ofCommand
    (temp : Temporary)
    (command : Text) :
    (ofTemplate temp (.ofCommand command)).expr.needs = [] := by
  cases hTemplate : Template.ofCommand command with
  | literal text => rfl
  | format text args =>
      rw [ofTemplate]
      split
      next name hSingle =>
        rw [← hTemplate] at hSingle
        have hArgs := Template.args_of_single? hSingle
        refine absurd ?_
          (Template.not_mem_args_ofCommand name command)
        rw [hArgs]
        exact List.mem_singleton_self _
      next => rfl

namespace Emission

------------------------------------------------------------
-- Printing and Arithmetic
------------------------------------------------------------

/- A line that always succeeds. -/
theorem outcome_emit_succeed
    {l : Line}
    {text : Text}
    (hText : l.render = text)
    (draft : Draft)
    (line : Nat) :
    (do emit text; emit "last_status = 0;").outcome
        ⟨l.needs.foldl Draft.require draft, 0, line⟩ =
      (.ok (),
        ⟨draft.inscribeAll (Event.lines 0 [l, .succeed]), 0,
          line⟩) := by
  rw [outcome_bind, outcome_emit_line hText]
  exact writes_emit rfl Line.render_succeed line _

theorem writes_print
    (line : Nat)
    (newline : Bool)
    (template : Template) :
    Writes line (print newline template)
      (Event.print newline template) := by
  intro draft
  cases template with
  | literal text =>
      cases newline with
      | true =>
          exact outcome_emit_succeed (l := .printLine text)
            (Line.render_printLine text) draft line
      | false =>
          exact outcome_emit_succeed (l := .printText text)
            (Line.render_printText text) draft line
  | format format args =>
      simp only [print]
      rw [outcome_bind, outcome_formatCall]
      exact outcome_emit_succeed (l := .printFormat _) rfl draft
        line

/- The words of a text are printed, unless there is more to it. -/
theorem settles_echo
    (line : Nat)
    (args : Text) :
    Settles line (echo args) (Event.echo args) := by
  intro draft
  simp only [echo, Event.echo]
  split
  · simp [Event.echoFault, Text.ofString_eq]
  split
  · simp [Event.echoFault, Text.ofString_eq]
  split
  · simp [Event.echoFault, Text.ofString_eq]
  cases Word.split args with
  | nil => exact writes_print line true _ draft
  | cons first rest =>
      by_cases hFlag : first = "-n"
      · simp only [hFlag, List.head?_cons, List.tail_cons,
          beq_self_eq_true, if_true]
        exact writes_print line false _ draft
      · have hFlagged :
            (some first == some (Text.ofString "-n")) = false := by
          simpa using hFlag
        simp only [List.head?_cons, hFlagged, if_neg hFlag]
        exact writes_print line true _ draft

theorem settles_arithAssign
    (line : Nat)
    (name expr : Text) :
    Settles line (arithAssign name expr)
      (Event.arithAssign name expr) := by
  intro draft
  have hRequest := outcome_request (ArithExpr.grants_request expr)
    ⟨draft, 0, line⟩
  rw [arithAssign, outcome_bind, hRequest, Event.arithAssign]
  cases ArithExpr.ofText expr with
  | error fault => rfl
  | ok e =>
      have hLine := outcome_emit_succeed
        (Line.render_assignInt name e) draft line
      rw [Line.needs, List.foldl_append] at hLine
      exact hLine

theorem settles_arithPrint
    (line : Nat)
    (expr : Text) :
    Settles line (arithPrint expr) (Event.arithPrint expr) := by
  intro draft
  have hRequest := outcome_request (ArithExpr.grants_request expr)
    ⟨draft, 0, line⟩
  rw [arithPrint, outcome_bind, hRequest, Event.arithPrint]
  cases ArithExpr.ofText expr with
  | error fault => rfl
  | ok e =>
      exact outcome_emit_succeed (Line.render_printInt e) draft line

------------------------------------------------------------
-- Commands
------------------------------------------------------------

/- What is done with the text of a command, once it is at hand. -/
theorem writes_withCommand
    {helper : Helper}
    (body : StringExpr → List Line)
    (hNeeds : ∀ e, (body e).flatMap Line.needs =
      e.needs ++ [helper])
    {texts : Piece → List Text}
    (hTexts : ∀ value : Value,
      (body value.expr).map Line.render = texts value.piece)
    (force : Bool)
    (line : Nat)
    (command : Text) :
    let value := Value.ofTemplate .command (.ofCommand command)
    Writes line
      (do
        let piece ← Emission.value "sh_cmd" (.ofCommand command)
        require helper
        inScope [piece] (texts piece) force)
      (if force then
        Event.withValuesInScope [value] (body value.expr)
      else
        Event.withValues [value] (body value.expr)) := by
  intro value draft
  have hName : Temporary.command.name = "sh_cmd" := rfl
  rw [outcome_bind, ← hName, outcome_value]
  simp only [outcome_bind, outcome_require]
  exact outcome_inScope_value value (body value.expr) [helper]
    (hNeeds value.expr) (hTexts value) force draft line

theorem writes_run
    (line : Nat)
    (command : Text) :
    Writes line (run command) (Event.run command) :=
  writes_withCommand (fun e => [.run e]) (by simp [Line.needs])
    (by simp [Line.render_run]) false line command

theorem writes_background
    (line : Nat)
    (command : Text) :
    Writes line (background command)
      (Event.background command) :=
  writes_withCommand (fun e => [.startJob e, .setJobStatus])
    (by simp [Line.needs])
    (by simp [Line.render_startJob, Line.render_setJobStatus])
    false line command

theorem writes_captureAssign
    (line : Nat)
    (name command : Text) :
    Writes line (captureAssign name command)
      (Event.captureAssign name command) := by
  have hOutput : Temporary.output.name =
      Text.ofString "sh_out" := rfl
  exact writes_withCommand
    (fun e => [.declareOutput e, .assign name (.temporary .output),
      .free .output])
    (by simp [Line.needs, StringExpr.needs])
    (by simp [Line.render_declareOutput, Line.render_assign,
      Line.render_free, StringExpr.render, hOutput,
      Text.ofString_eq])
    true line command

theorem writes_assign
    (line : Nat)
    (name word : Text) :
    Writes line (assign name word) (Event.assign name word) := by
  intro draft
  let value := Value.ofTemplate .value (.ofWord word)
  have hName : Temporary.value.name = "sh_value" := rfl
  have hTexts : [Line.assign name value.expr].map Line.render =
      ["setenv(" ++ Literal.quote name ++ ", " ++
        value.piece.expr ++ ", 1);"] := by
    rw [List.map_singleton, Line.render_assign,
      Value.expr_piece]
  have hScope := outcome_inScope_value value
    [.assign name value.expr] [] (by simp [Line.needs]) hTexts
    false draft line
  have hSucceed := writes_emit (l := .succeed) rfl
    Line.render_succeed line
  rw [assign, outcome_bind, ← hName, outcome_value]
  simp only [outcome_bind]
  rw [List.foldl_nil] at hScope
  rw [hScope, Event.assign, Draft.inscribeAll_append]
  exact hSucceed _

/- The stages of a pipeline, from whatever number on they count. -/
theorem outcome_stages
    (index : Nat)
    (commands : List Text)
    (draft : Draft)
    (scope line : Nat) :
    let values := commands.mapIdx fun n stage =>
      Value.ofTemplate (.stage (n + index)) (.ofCommand stage)
    (stages index commands).outcome ⟨draft, scope, line⟩ =
      (.ok (values.map Value.piece),
        ⟨(values.flatMap Value.needs).foldl Draft.require draft,
          scope, line⟩) := by
  induction commands generalizing index draft with
  | nil => rfl
  | cons stage commands ih =>
      have hName : (Temporary.stage index).name =
          "sh_cmd_" ++ Text.ofNat index := rfl
      have hShift (n : Nat) : n + 1 + index = n + (index + 1) := by
        omega
      simp only [List.mapIdx_cons, Nat.zero_add, hShift]
      rw [stages, ← hName, outcome_bind, outcome_value]
      simp only [outcome_bind, ih (index + 1)]
      simp

/- The helpers of stages are needed where stages are declared. -/
theorem needs_stageValues
    (commands : List Text) :
    let values := Event.stageValues commands
    (values.flatMap Value.declarations).flatMap Line.needs =
        values.flatMap Value.needs ∧
      (values.map Value.expr).flatMap StringExpr.needs = [] := by
  intro values
  have hExpr : ∀ value ∈ values, value.expr.needs = [] := by
    intro value hValue
    rcases List.mem_mapIdx.mp hValue with ⟨index, hIndex, rfl⟩
    exact Value.needs_expr_ofCommand _ _
  constructor
  · rw [List.flatMap_assoc, List.flatMap_def, List.flatMap_def]
    refine congrArg List.flatten (List.map_congr_left ?_)
    intro value hValue
    rw [value.needs_eq, hExpr value hValue, List.append_nil]
  · simpa using hExpr

theorem writes_pipeline
    (line : Nat)
    (commands : List Text) :
    Writes line (pipeline commands) (Event.pipeline commands) := by
  intro draft
  let values := Event.stageValues commands
  let body : List Line :=
    [.declareStages (values.map Value.expr),
     .declareStatuses values.length,
     .declareResult values.length,
     .setPipelineStatus]
  have hStages := outcome_stages 0 commands draft 0 line
  have hScope := outcome_inScope values body true draft line
  have hCount : values.length = commands.length := by
    simp [values, Event.stageValues]
  have hExprs : (values.map Value.piece).map Piece.expr =
      (values.map Value.expr).map StringExpr.render := by
    simp [Function.comp_def]
  have hTexts : body.map Line.render =
      ["const char *sh_cmds[" ++ Text.ofNat commands.length ++
         "] = \x7b " ++ Text.joinWith ", "
           ((values.map Value.piece).map Piece.expr) ++ " \x7d;",
       "int sh_statuses[" ++ Text.ofNat commands.length ++ "];",
       "int sh_rc = sh_pipeline(sh_cmds, " ++
         Text.ofNat commands.length ++ ", sh_statuses);",
       "last_status = sh_rc < 0 ? 127 : sh_rc;"] := by
    simp only [body, List.map_cons, List.map_nil,
      Line.render_declareStages, Line.render_declareResult,
      Line.render_setPipelineStatus, hExprs, List.length_map,
      hCount]
    rfl
  rcases needs_stageValues commands with ⟨hDeclared, hUsed⟩
  have hBody : body.flatMap Line.needs = [.pipeline] := by
    simp [body, Line.needs, values, hUsed]
  simp only [values, List.flatMap_append, hDeclared, hBody,
    List.foldl_append, hTexts] at hScope
  rw [pipeline, outcome_bind, hStages]
  simp only [outcome_bind, outcome_require]
  exact hScope

theorem settles_changeDir
    (line : Nat)
    (dir : Option Text) :
    Settles line (changeDir dir) (Event.changeDir dir) := by
  intro draft
  -- The directory is at hand, or there is none.
  have hDirectory : (directory dir).outcome ⟨draft, 0, line⟩ =
      granted ⟨draft, 0, line⟩
        ((Event.directory dir).map fun value =>
          (value.piece, value.needs)) := by
    cases dir with
    | none =>
        have hHome : Text.ofString "sh_var(\x22HOME\x22)" =
            (StringExpr.variable "HOME").render := by
          decide +kernel
        rw [directory, hHome]
        rfl
    | some dir =>
        rw [directory, Event.directory]
        rcases Word.split dir with _ | ⟨word, _ | ⟨next, rest⟩⟩
        · rfl
        · exact outcome_value .directory (.ofWord word) draft 0
            line
        · rfl
  rw [changeDir, outcome_bind, hDirectory, Event.changeDir]
  cases Event.directory dir with
  | error fault => rfl
  | ok value =>
      have hTexts : [Line.changeDir value.expr].map Line.render =
          ["last_status = chdir(" ++ value.piece.expr ++
            ") == 0 ? 0 : 1;"] := by
        rw [List.map_singleton, Line.render_changeDir,
          Value.expr_piece]
      exact outcome_inScope_value value
        [.changeDir value.expr] [] (by simp [Line.needs]) hTexts
        false draft line

theorem settles_exit
    (line : Nat)
    (code : Option Text) :
    Settles line (exit code) (Event.exit code) := by
  intro draft
  have hCode : (exitCode code).outcome ⟨draft, 0, line⟩ =
      granted ⟨draft, 0, line⟩
        ((Event.exitCode code).map fun e =>
          (e.render, e.needs)) := by
    cases code with
    | none => rfl
    | some word =>
        rw [exitCode, outcome_bind, Event.exitCode]
        cases Operand.ofWord word with
        | error fault => rfl
        | ok operand =>
            have hGrants : operand.requestInt.Grants
                (.ok (operand.intExpr.render,
                  operand.intExpr.needs)) :=
              operand.outcome_requestInt
            exact outcome_request hGrants ⟨draft, 0, line⟩
  rw [exit, outcome_bind, hCode, Event.exit]
  cases Event.exitCode code with
  | error fault => rfl
  | ok e => exact outcome_emit_line (l := .exit e) rfl draft line

theorem writes_informational
    (line : Nat)
    (command text : Text) :
    Writes line (informational command text)
      (Event.informational command text) := by
  rw [informational, Event.informational]
  split
  · exact writes_emit rfl Line.render_succeed line
  split
  · exact writes_emit rfl Line.render_failed line
  split
  · intro draft
    simp only [outcome_bind, outcome_emit, outcome_enter,
      outcome_leave, outcome_emitNested,
      ← Line.render_succeed, ← Line.render_failed]
    rfl
  · exact writes_run line text

------------------------------------------------------------
-- Conditions
------------------------------------------------------------

theorem writes_test
    (line : Nat)
    (expr : Text) :
    Writes line (test expr) (Event.test line expr) := by
  intro draft
  have hRequest := outcome_request (Condition.grants_request expr)
    ⟨draft, 0, line⟩
  rw [test, outcome_bind, outcome_attempt, hRequest, Event.test]
  cases Condition.ofText expr with
  | ok e =>
      exact outcome_emit_line (Line.render_setStatus e) draft line
  | error fault =>
      exact writes_emit rfl Line.render_failed line
        (draft.inscribe (.fail line fault))

theorem writes_check
    (line : Nat)
    (text : Text) :
    Writes line (check text) (Event.check line text) := by
  rw [check, Event.check]
  cases Form.testExpression? text with
  | some expr => exact writes_test line expr
  | none =>
      simp only
      split
      · exact writes_emit rfl Line.render_succeed line
      split
      · exact writes_emit rfl Line.render_failed line
      · exact writes_run line text

theorem writes_condition
    (line : Nat)
    (text : Text) :
    Writes line (condition text) (Event.condition line text) := by
  rw [condition, Event.condition]
  cases Event.negated? text with
  | none => exact writes_check line text
  | some rest =>
      exact (writes_check line rest).bind
        (writes_emit rfl Line.render_invertStatus line)

end Emission

end ShellToC
