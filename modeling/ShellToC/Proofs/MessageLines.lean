import ShellToC.Proofs.InertMarkers
import ShellToC.Proofs.Patterns

/-
  This file says which messages run over more than one line.

  Messages quote the script.  What they quote of a statement
  of a known form stands on one line, since the patterns take
  no more than a line, and so do the keywords of blocks.  A
  statement of no known form is quoted as a whole, with all
  of its line feeds.

  Key definitions include:
    * `Form.shown`
    * `Event.isShort`
    * `Diagnostic.spansLines`
    * `Command.spansLines`
    * `Draft.LogsReports`

  Main declarations:
    * `Form.onOneLine_shown`
    * `Command.spanning_reports_events`
    * `Command.spanning_reports_eventsAll`
    * `Draft.logsReports_ofScript`
    * `Program.messages_spanning_lines`
-/

namespace ShellToC

------------------------------------------------------------
-- Texts on One Line
------------------------------------------------------------

/- Line feeds are blank. -/
theorem Text.onOneLine_of_solid
    {text : Text}
    (h : text.any isBlank = false) :
    text.onOneLine = true := by
  rw [List.any_eq_false] at h
  rw [onOneLine, List.all_eq_true]
  intro c hc
  rw [bne_iff_ne]
  rintro rfl
  exact h _ hc (by decide)

/- Comment ends are not parted by line feeds. -/
theorem Line.onOneLine_partCommentEnds
    (text : Text) :
    (partCommentEnds text).onOneLine = text.onOneLine := by
  fun_induction partCommentEnds text with
  | case1 rest ih => simpa [Text.onOneLine] using ih
  | case2 c rest _ ih =>
      rw [Text.onOneLine] at ih ⊢
      rw [List.all_cons, ih]
      rfl
  | case3 => rfl

------------------------------------------------------------
-- Statements of a Known Form
------------------------------------------------------------

namespace Pattern

theorem onOneLine_of_restOfLine?
    {text rest : Text}
    (h : restOfLine? text = some rest) :
    rest.onOneLine = true := by
  rw [restOfLine?] at h
  split at h
  next hText =>
    cases h
    rw [Bool.and_eq_true] at hText
    exact hText.2
  next => contradiction

theorem onOneLine_of_someRestOfLine?
    {text rest : Text}
    (h : someRestOfLine? text = some rest) :
    rest.onOneLine = true := by
  rcases Option.bind_eq_some_iff.mp h with ⟨line, hLine, hRest⟩
  split at hRest
  · cases hRest
    exact onOneLine_of_restOfLine? hLine
  split at hRest
  · split at hRest
    next hLast =>
      cases hRest
      simpa [Text.onOneLine] using hLast
    next => contradiction
  · contradiction

theorem onOneLine_of_solidRest?
    {text rest : Text}
    (h : solidRest? text = some rest) :
    rest.onOneLine = true := by
  simp only [solidRest?] at h
  split at h
  next hText =>
    cases h
    rw [Bool.and_eq_true, Bool.not_eq_true'] at hText
    exact Text.onOneLine_of_solid hText.2
  next => contradiction

theorem onOneLine_of_arithmetic?
    {text expr : Text}
    (h : arithmetic? text = some expr) :
    expr.onOneLine = true :=
  (Option.filter_eq_some_iff.mp h).2

theorem onOneLine_of_bracketed?
    {opening closing text inner : Text}
    (h : bracketed? opening closing text = some inner) :
    inner.onOneLine = true := by
  rcases Option.bind_eq_some_iff.mp h with ⟨rest, _, hRest⟩
  rcases Option.bind_eq_some_iff.mp hRest with ⟨body, _, hBody⟩
  split at hBody
  · split at hBody
    · cases hBody
      rfl
    · contradiction
  split at hBody
  next hLine =>
    cases hBody
    rw [Bool.and_eq_true] at hLine
    exact hLine.2
  next => contradiction

/- What may be left out is on one line if it is there. -/
theorem onOneLine_of_keyword?_optional?
    {keyword text : Text}
    {found : Option Text}
    {after : Text → Option Text}
    (h : keyword? keyword (optional? after) text = some found)
    (hAfter : ∀ {rest part}, after rest = some part →
      part.onOneLine = true) :
    (found.getD []).onOneLine = true := by
  rcases exists_of_keyword? h with ⟨rest, _, hRest⟩
  rcases cases_of_optional? hRest with
    ⟨_, rfl⟩ | ⟨part, rfl, hPart⟩
  · rfl
  · exact hAfter hPart

end Pattern

namespace Form

/- The expression of a test is on one line in all of its spellings. -/
theorem onOneLine_of_testExpression?
    {text expr : Text}
    (h : testExpression? text = some expr) :
    expr.onOneLine = true := by
  simp only [testExpression?, Option.or_eq_some_iff] at h
  rcases h with hDouble | ⟨_, hSingle | ⟨_, hTest⟩⟩
  · exact Pattern.onOneLine_of_bracketed? hDouble
  · exact Pattern.onOneLine_of_bracketed? hSingle
  · rcases Pattern.exists_of_keyword? hTest with ⟨rest, _, hRest⟩
    exact Pattern.onOneLine_of_someRestOfLine? hRest

/- The part of a statement that a report about it may show. -/
def shown : Form → Text
  | .echo args => args.getD []
  | .arithAssign _ expr => expr
  | .arithPrint expr => expr
  | .test expr => expr
  | .changeDir dir => dir.getD []
  | .exit code => code.getD []
  | _ => []

theorem onOneLine_shown_of_isFoundIn
    {text : Text}
    {form : Form}
    (h : IsFoundIn text form) :
    form.shown.onOneLine = true := by
  cases form with
  | echo args =>
      exact Pattern.onOneLine_of_keyword?_optional? h
        Pattern.onOneLine_of_restOfLine?
  | arithAssign name expr =>
      rcases h with ⟨value, _, hExpr⟩
      exact Pattern.onOneLine_of_arithmetic? hExpr
  | arithPrint expr =>
      rcases h with ⟨rest, _, hExpr⟩
      exact Pattern.onOneLine_of_arithmetic? hExpr
  | test expr => exact onOneLine_of_testExpression? h
  | changeDir dir =>
      exact Pattern.onOneLine_of_keyword?_optional? h
        Pattern.onOneLine_of_someRestOfLine?
  | exit code =>
      exact Pattern.onOneLine_of_keyword?_optional? h
        Pattern.onOneLine_of_solidRest?
  | _ => rfl

/- What a report may show of a statement is on one line. -/
theorem onOneLine_shown
    (text : Text) :
    (ofText text).shown.onOneLine = true := by
  by_cases hComment : ofText text = .comment
  · rw [hComment]
    rfl
  by_cases hKnown : ofText text = .unsupported
  · rw [hKnown]
    rfl
  · rcases exists_rule hComment hKnown with ⟨rule, hRule, hForm⟩
    exact onOneLine_shown_of_isFoundIn
      (isFoundIn_of_mem_rules hRule hForm)

/- The keywords that open blocks are on one line. -/
theorem onOneLine_of_opener?
    {form : Form}
    {opener : Text}
    (h : form.opener? = some opener) :
    opener.onOneLine = true := by
  cases form with
  | ifOpen cond | elifBranch cond | whileOpen cond =>
      cases h
      simp
  | forOpen var items =>
      cases h
      simp
  | _ => cases h

end Form

------------------------------------------------------------
-- Events
------------------------------------------------------------

namespace Event

open Fault

/- Whether the event reports no more than a line. -/
def isShort : Event → Bool
  | .fail _ fault => fault.message.onOneLine
  | .warn _ message => message.onOneLine
  | _ => true

/- Code reports nothing. -/
theorem all_isShort_of_isCode
    {events : List Event}
    (h : events.all isCode = true) :
    events.all isShort = true := by
  rw [List.all_eq_true] at h ⊢
  intro event hEvent
  have hCode := h event hEvent
  cases event with
  | fail line fault => cases hCode
  | warn line message => cases hCode
  | _ => rfl

theorem all_isShort_orFail
    (line : Nat)
    {result : Except Fault (List Event)}
    {text : Text}
    (hFault : StaysInside text result)
    (hText : text.onOneLine = true)
    (hCode : ∀ events, result = .ok events →
      events.all isCode = true) :
    (orFail line result).all isShort = true := by
  cases result with
  | error fault =>
      have hMessage := (hFault fault rfl).onOneLine_message hText
      simp [orFail, isShort, hMessage]
  | ok events => exact all_isShort_of_isCode (hCode events rfl)

theorem all_isShort_orFail_map
    (line : Nat)
    {α : Type}
    {result : Except Fault α}
    {text : Text}
    (hFault : StaysInside text result)
    (hText : text.onOneLine = true)
    {write : α → List Event}
    (hCode : ∀ value, (write value).all isCode = true) :
    (orFail line (result.map write)).all isShort = true := by
  apply all_isShort_orFail line (hFault.map write) hText
  intro events hEvents
  cases result with
  | error fault => cases hEvents
  | ok value =>
      cases hEvents
      exact hCode value

------------------------------------------------------------
-- Conditions
------------------------------------------------------------

theorem all_isShort_test
    (line : Nat)
    {expr : Text}
    (h : expr.onOneLine = true) :
    (test line expr).all isShort = true := by
  unfold test
  split
  · rfl
  next fault hFault =>
    have hInside := Condition.staysInside_ofText expr fault hFault
    simp [isShort, hInside.onOneLine_message h]

/- A condition is only tested if it is on one line. -/
theorem all_isShort_check
    (line : Nat)
    (text : Text) :
    (check line text).all isShort = true := by
  unfold check
  split
  next expr hExpr =>
    exact all_isShort_test line
      (Form.onOneLine_of_testExpression? hExpr)
  next =>
    split
    · rfl
    split
    · rfl
    · exact all_isShort_of_isCode (all_isCode_run text)

theorem all_isShort_condition
    (line : Nat)
    (text : Text) :
    (condition line text).all isShort = true := by
  unfold condition
  split
  · rw [List.all_append, all_isShort_check]
    rfl
  · exact all_isShort_check line text

theorem all_isShort_openBranch
    (line : Nat)
    (cond : Text)
    (frame : Frame) :
    (openBranch line cond frame).all isShort = true := by
  rw [openBranch, List.all_append, all_isShort_condition]
  rfl

theorem all_isShort_continueElse
    (line : Nat)
    {keyword : Text}
    (hKeyword : keyword.onOneLine = true)
    (blocks : List Frame)
    {next : List Event}
    (hNext : next.all isShort = true) :
    (continueElse line keyword blocks next).all isShort = true := by
  unfold continueElse
  split
  · simp [isShort, Fault.message, hKeyword]
  split
  · rw [List.all_append, hNext]
    rfl
  · simp [isShort, Fault.message, hKeyword]

theorem all_isShort_openWhile
    (line : Nat)
    (cond : Text) :
    (openWhile line cond).all isShort = true := by
  rw [openWhile, List.all_append, List.all_append,
    all_isShort_condition]
  rfl

------------------------------------------------------------
-- Closing Blocks
------------------------------------------------------------

theorem all_isShort_closeFrame
    (frame : Frame) :
    (closeFrame frame).all isShort = true := by
  simp [closeFrame, lines, isShort]

theorem all_isShort_closeChain
    (blocks : List Frame) :
    (closeChain blocks).all isShort = true := by
  induction blocks with
  | nil => rfl
  | cons frame rest ih =>
      simp only [closeChain, List.all_append, List.all_cons,
        all_isShort_closeFrame]
      split
      · rw [ih]
        rfl
      · rfl

theorem onOneLine_closer
    (kind : BlockKind) :
    kind.closer.onOneLine = true := by
  cases kind <;> simp [BlockKind.closer]

theorem all_isShort_closeAs
    (line : Nat)
    {keyword : Text}
    (hKeyword : keyword.onOneLine = true)
    (expected : BlockKind)
    {frame : Frame}
    (hFrame : frame.opener.onOneLine = true) :
    (closeAs line keyword expected frame).all isShort = true := by
  have hMismatch :
      (mismatch line keyword frame).isShort = true := by
    simp [mismatch, isShort, hKeyword, hFrame, onOneLine_closer]
  unfold closeAs
  split
  · exact all_isShort_closeFrame frame
  · simp only [List.all_append, List.all_cons, hMismatch,
      all_isShort_closeFrame]
    rfl

variable {blocks : List Frame}

theorem all_isShort_closeIf
    (hBlocks : ∀ frame ∈ blocks, frame.opener.onOneLine = true)
    (line : Nat) :
    (closeIf line blocks).all isShort = true := by
  cases blocks with
  | nil => simp [closeIf, isShort, Fault.message]
  | cons frame rest =>
      have hFirst : (closeAs line "fi" .conditional frame).all
          isShort = true :=
        all_isShort_closeAs line (by simp) .conditional
          (hBlocks frame List.mem_cons_self)
      rw [closeIf, List.all_append, hFirst]
      split
      · exact all_isShort_closeChain rest
      · rfl

theorem all_isShort_closeLoop
    (hBlocks : ∀ frame ∈ blocks, frame.opener.onOneLine = true)
    (line : Nat) :
    (closeLoop line blocks).all isShort = true := by
  cases blocks with
  | nil => simp [closeLoop, isShort, Fault.message]
  | cons frame rest =>
      exact all_isShort_closeAs line (by simp) .loop
        (hBlocks frame List.mem_cons_self)

theorem all_isShort_closeAll
    (hBlocks : ∀ frame ∈ blocks, frame.opener.onOneLine = true) :
    (closeAll blocks).all isShort = true := by
  rw [closeAll, List.all_flatMap, List.all_eq_true]
  intro frame hFrame
  have hClose := all_isShort_closeFrame frame
  split
  · exact hClose
  · simp [isShort, Fault.message, hBlocks frame hFrame, hClose]

end Event

------------------------------------------------------------
-- Statements
------------------------------------------------------------

/- Whether the message of the report runs over line feeds. -/
def Diagnostic.spansLines
    (d : Diagnostic) : Bool :=
  !d.message.onOneLine

theorem Event.spanning_reports_of_isShort
    {events : List Event}
    (h : events.all isShort = true) :
    (events.flatMap reports).filter Diagnostic.spansLines = [] := by
  rw [List.filter_eq_nil_iff]
  intro d hd
  rcases List.mem_flatMap.mp hd with ⟨event, hEvent, hReport⟩
  have hShort := List.all_eq_true.mp h event hEvent
  cases event with
  | fail line fault =>
      rw [reports, List.mem_singleton] at hReport
      simpa [hReport, Diagnostic.spansLines, isShort] using hShort
  | warn line message =>
      rw [reports, List.mem_singleton] at hReport
      simpa [hReport, Diagnostic.spansLines, isShort] using hShort
  | _ => cases hReport

namespace Command

/- Whether the statement has no known form and holds line feeds. -/
def spansLines
    (command : Command) : Bool :=
  command.form == .unsupported && !command.text.onOneLine

/- The report on a statement of no known form. -/
def refusal
    (line : Nat)
    (command : Command) : Diagnostic :=
  ⟨.error, line, (Fault.construct command.text).message⟩

/- A statement of a known form is reported on with no more than a line. -/
theorem all_isShort_events
    {blocks : List Frame}
    (hBlocks : ∀ frame ∈ blocks, frame.opener.onOneLine = true)
    (loops line : Nat)
    {command : Command}
    (hShown : command.form.shown.onOneLine = true)
    (hKnown : command.form ≠ .unsupported) :
    (command.events blocks loops line).all Event.isShort = true := by
  rcases command with ⟨text, form⟩
  cases form with
  | comment => rfl
  | bodyOpen => rfl
  | pipeline stages =>
      exact Event.all_isShort_of_isCode
        (Event.all_isCode_withValuesInScope _ rfl)
  | echo args =>
      exact Event.all_isShort_orFail line
        (Event.staysInside_echo _) hShown
        fun _ => Event.all_isCode_of_echo
  | arithAssign name expr =>
      exact Event.all_isShort_orFail_map line
        (ArithExpr.staysInside_ofText expr) hShown fun _ => rfl
  | captureAssign name body =>
      exact Event.all_isShort_of_isCode
        (Event.all_isCode_withValuesInScope _ rfl)
  | arithPrint expr =>
      exact Event.all_isShort_orFail_map line
        (ArithExpr.staysInside_ofText expr) hShown fun _ => rfl
  | test expr => exact Event.all_isShort_test line hShown
  | changeDir dir =>
      exact Event.all_isShort_orFail_map line
        (Event.staysInside_directory dir) hShown
        fun _ => Event.all_isCode_withValues _ rfl
  | ifOpen cond => exact Event.all_isShort_openBranch line cond _
  | elifBranch cond =>
      exact Event.all_isShort_continueElse line (by simp) blocks
        (Event.all_isShort_openBranch line cond _)
  | whileOpen cond => exact Event.all_isShort_openWhile line cond
  | elseBranch =>
      exact Event.all_isShort_continueElse line (by simp) blocks rfl
  | ifClose => exact Event.all_isShort_closeIf hBlocks line
  | forOpen var items =>
      exact Event.all_isShort_of_isCode
        (Event.all_isCode_openFor line loops var items)
  | loopClose => exact Event.all_isShort_closeLoop hBlocks line
  | exit code =>
      exact Event.all_isShort_orFail_map line
        (Event.staysInside_exitCode code) hShown fun _ => rfl
  | background body =>
      exact Event.all_isShort_of_isCode
        (Event.all_isCode_withValues _ rfl)
  | assign name value =>
      have hValue (value : Value) :
          (Event.withValues [value]
            [.assign name value.expr]).all Event.isCode = true :=
        Event.all_isCode_withValues _ rfl
      apply Event.all_isShort_of_isCode
      simp only [events, Event.assign, List.all_append, hValue]
      rfl
  | informational name args =>
      exact Event.all_isShort_of_isCode
        (Event.all_isCode_informational _ _)
  | varPrint =>
      exact Event.all_isShort_of_isCode
        (Event.all_isCode_print true _)
  | unsupported => exact absurd rfl hKnown

/- Only the refusal of a statement of no known form can span lines. -/
theorem spanning_reports_events
    {blocks : List Frame}
    (hBlocks : ∀ frame ∈ blocks, frame.opener.onOneLine = true)
    (loops line : Nat)
    {command : Command}
    (hShown : command.form.shown.onOneLine = true) :
    ((command.events blocks loops line).flatMap
        Event.reports).filter Diagnostic.spansLines =
      if command.spansLines then [command.refusal line] else [] := by
  by_cases hKnown : command.form = .unsupported
  · have hEvents : (command.events blocks loops line).flatMap
        Event.reports = [command.refusal line] := by
      rw [events, hKnown]
      rfl
    have hSpans : (command.refusal line).spansLines =
        command.spansLines := by
      simp [refusal, Diagnostic.spansLines, Fault.message,
        spansLines, hKnown]
    rw [hEvents, List.filter_cons, hSpans]
    rfl
  · have hShort := all_isShort_events hBlocks loops line hShown
      hKnown
    have hSpans : command.spansLines = false := by
      simp [spansLines, hKnown]
    rw [Event.spanning_reports_of_isShort hShort, hSpans]
    rfl

/- A statement opens blocks by keywords that are on one line. -/
theorem onOneLine_of_mem_stackAll_events
    {blocks : List Frame}
    (hBlocks : ∀ frame ∈ blocks, frame.opener.onOneLine = true)
    (loops line : Nat)
    (command : Command) :
    ∀ frame ∈ Event.stackAll blocks
        (command.events blocks loops line),
      frame.opener.onOneLine = true := by
  have hOld (label : Nat × Text)
      (hLabel : label ∈ blocks.map Frame.label) :
      label.2.onOneLine = true := by
    rcases List.mem_map.mp hLabel with ⟨frame, hFrame, rfl⟩
    exact hBlocks frame hFrame
  intro frame hFrame
  have hLabel : frame.label ∈ (Event.stackAll blocks
      (command.events blocks loops line)).map Frame.label :=
    List.mem_map_of_mem hFrame
  rcases labels_stackAll_events blocks loops line command with
    hSuffix | ⟨opener, hOpener, hPush⟩
  · exact hOld _ (hSuffix.subset hLabel)
  · rw [hPush, List.mem_cons] at hLabel
    rcases hLabel with hNew | hLabel
    · have hSame : frame.opener = opener := congrArg Prod.snd hNew
      rw [hSame]
      exact Form.onOneLine_of_opener? hOpener
    · exact hOld _ hLabel

/-
  The reports of a run that span lines are the refusals of
  its statements that do, in order.  The openers of the blocks
  are on one line throughout.
-/
theorem spanning_reports_eventsAll
    {blocks : List Frame}
    (hBlocks : ∀ frame ∈ blocks, frame.opener.onOneLine = true)
    (loops : Nat)
    {commands : List (Nat × Command)}
    (hShown : ∀ entry ∈ commands,
      entry.2.form.shown.onOneLine = true) :
    ((eventsAll blocks loops commands).flatMap
        Event.reports).filter Diagnostic.spansLines =
      (commands.filter (·.2.spansLines)).map
        (fun entry => entry.2.refusal entry.1) ∧
    ∀ frame ∈ Event.stackAll blocks
        (eventsAll blocks loops commands),
      frame.opener.onOneLine = true := by
  induction commands generalizing blocks loops with
  | nil => exact ⟨rfl, hBlocks⟩
  | cons entry commands ih =>
      rcases entry with ⟨line, command⟩
      rw [List.forall_mem_cons] at hShown
      have hFirst := spanning_reports_events hBlocks loops line
        hShown.1
      rcases ih
        (onOneLine_of_mem_stackAll_events hBlocks loops line command)
        (loops + Event.loopsAll (command.events blocks loops line))
        hShown.2 with ⟨hReports, hAfter⟩
      rw [eventsAll, Event.stackAll_append]
      refine ⟨?_, hAfter⟩
      rw [List.flatMap_append, List.filter_append, hFirst, hReports,
        List.filter_cons]
      split <;> rfl

end Command

------------------------------------------------------------
-- Reports in the Log
------------------------------------------------------------

namespace Draft

/- Every report is also in the log. -/
def LogsReports
    (draft : Draft) : Prop :=
  ∀ d ∈ draft.diagnostics, d.record draft.file ∈ draft.log

namespace LogsReports

variable {draft : Draft}
variable (h : draft.LogsReports)

include h

/- Nothing is ever taken out of the log. -/
theorem of_growth
    {next : Draft}
    (hFile : next.file = draft.file)
    (hReports : next.diagnostics = draft.diagnostics)
    (hLog : ∀ record ∈ draft.log, record ∈ next.log) :
    next.LogsReports := by
  intro d hd
  rw [hReports] at hd
  rw [hFile]
  exact hLog _ (h d hd)

theorem note
    (record : Record) :
    (draft.note record).LogsReports :=
  h.of_growth rfl rfl fun _ hRecord =>
    Array.mem_push_of_mem record hRecord

theorem require
    (helper : Helper) :
    (draft.require helper).LogsReports := by
  refine h.of_growth rfl rfl fun record hRecord => ?_
  rw [← Array.mem_toList_iff] at hRecord ⊢
  rw [Draft.require, Array.toList_appendList]
  exact List.mem_append_left _ hRecord

theorem write
    (extra : Nat)
    (line : Line) :
    (draft.write extra line).LogsReports := by
  have hNeeds (helpers : List Helper) :
      (helpers.foldl Draft.require draft).LogsReports := by
    induction helpers generalizing draft with
    | nil => exact h
    | cons helper helpers ih => exact ih (h.require helper)
  exact hNeeds line.needs

theorem report
    (d : Diagnostic) :
    (draft.report d).LogsReports := by
  intro other hOther
  rcases Array.mem_push.mp hOther with hOld | rfl
  · exact Array.mem_push_of_mem _ (h other hOld)
  · exact Array.mem_push_self

theorem apply
    (event : Event) :
    (draft.apply event).LogsReports := by
  cases event with
  | write extra line => exact h.write extra line
  | fail line fault => exact (h.write 0 _).report _
  | warn line message => exact h.report _
  | push frame =>
      exact h.of_growth rfl rfl fun _ hRecord =>
        Array.mem_push_of_mem _ hRecord
  | pop =>
      simp only [Draft.apply, pop?]
      split
      next hPop =>
        split at hPop
        · cases hPop
        · cases hPop
          exact h.of_growth rfl rfl fun _ hRecord =>
            Array.mem_push_of_mem _ hRecord
      next => exact h
  | countLoop => exact h

theorem extend
    (events : List Event) :
    (draft.extend events).LogsReports := by
  induction events generalizing draft with
  | nil => exact h
  | cons event events ih => exact ih (h.apply event)

theorem addStatement
    (statement : Statement) :
    (draft.addStatement statement).LogsReports := by
  have hNotes (records : List Record) :
      (records.foldl Draft.note draft).LogsReports := by
    induction records generalizing draft with
    | nil => exact h
    | cons record records ih => exact ih (h.note record)
  exact (hNotes _).extend _

theorem foldl_addStatement
    (statements : List Statement) :
    (statements.foldl Draft.addStatement draft).LogsReports := by
  induction statements generalizing draft with
  | nil => exact h
  | cons statement statements ih =>
      exact ih (h.addStatement statement)

end LogsReports

theorem logsReports_ofScript
    (file unit script : Text) :
    (ofScript file unit script).LogsReports := by
  have hStart : (start file unit).LogsReports := by
    intro d hd
    simp [start] at hd
  exact ((hStart.note _).foldl_addStatement _).extend _

end Draft

------------------------------------------------------------
-- Marks and Records
------------------------------------------------------------

namespace Diagnostic

/- A mark shows the name of the file and the message. -/
theorem onOneLine_markerText
    (file : Text)
    (d : Diagnostic) :
    (d.markerText file).onOneLine =
      (file.onOneLine && d.message.onOneLine) := by
  simp [markerText, Line.onOneLine_partCommentEnds]

/- So does the line of the log. -/
theorem onOneLine_render_record
    (file : Text)
    (d : Diagnostic) :
    (d.record file).render.onOneLine =
      (file.onOneLine && d.message.onOneLine) := by
  have hLevel : d.level.name.onOneLine = true := by
    cases d.level <;> simp [Level.name]
  have hRender : d.render.onOneLine = d.message.onOneLine := by
    unfold render
    split <;> simp
  simp [record, Record.render, hLevel, hRender]

end Diagnostic

------------------------------------------------------------
-- Scripts
------------------------------------------------------------

/- The reports on a script that span lines. -/
theorem Draft.spanning_diagnostics_ofScript
    (file unit script : Text) :
    (ofScript file unit script).diagnostics.toList.filter
        Diagnostic.spansLines =
      ((Command.ofScript script).filter (·.2.spansLines)).map
        fun entry => entry.2.refusal entry.1 := by
  have hShown : ∀ entry ∈ Command.ofScript script,
      entry.2.form.shown.onOneLine = true := by
    intro entry hEntry
    rcases List.mem_map.mp hEntry with ⟨statement, _, rfl⟩
    exact Form.onOneLine_shown _
  have hBlocks : ∀ frame ∈ ([] : List Frame),
      frame.opener.onOneLine = true := by
    simp
  rcases Command.spanning_reports_eventsAll hBlocks 0 hShown with
    ⟨hReports, hAfter⟩
  have hClose := Event.spanning_reports_of_isShort
    (Event.all_isShort_closeAll hAfter)
  rcases ofScript_eq file unit script with ⟨log, hScript⟩
  rw [hScript, finish_addCommands_eq_extend,
    toList_diagnostics_extend]
  change List.filter _ ([] ++ (Command.eventsToEnd [] 0
    (Command.ofScript script)).flatMap Event.reports) = _
  rw [List.nil_append, Command.eventsToEnd, List.flatMap_append,
    List.filter_append, hReports, hClose, List.append_nil]

namespace Program

/-
  The messages of a script that run over more than one line
  are those that refuse a statement of no known form in which
  a line feed is kept, one for each such statement.  All other
  messages are on one line.  Every mark in the program is that
  of an error, and every report is in the log.  The mark and
  the line of the log are on one line exactly if the message
  is, and the name of the file, which they show as it is.
-/
theorem messages_spanning_lines
    (file unit script : Text) :
    let program := ofScript file unit script
    let draft := Draft.ofScript file unit script
    program.diagnostics.toList.filter Diagnostic.spansLines =
      ((Command.ofScript script).filter (·.2.spansLines)).map
        (fun entry => entry.2.refusal entry.1) ∧
    (∀ mark ∈ Row.marks draft.rows.toList,
      ∃ d ∈ program.diagnostics, d.isError = true ∧
        mark = d.markerText file ∧
        (mark.onOneLine = true ↔
          file.onOneLine = true ∧ d.message.onOneLine = true)) ∧
    (∀ d ∈ program.diagnostics,
      d.record file ∈ program.log ∧
        ((d.record file).render.onOneLine = true ↔
          file.onOneLine = true ∧ d.message.onOneLine = true)) := by
  intro program draft
  refine ⟨Draft.spanning_diagnostics_ofScript file unit script,
    ?_, ?_⟩
  · intro mark hMark
    rcases Draft.exists_of_mem_marks hMark with
      ⟨d, hd, hError, rfl⟩
    refine ⟨d, hd, hError, rfl, ?_⟩
    rw [d.onOneLine_markerText, Bool.and_eq_true]
  · intro d hd
    have hLog : d.record draft.file ∈ draft.log :=
      Draft.logsReports_ofScript file unit script d hd
    rw [Draft.file_ofScript] at hLog
    refine ⟨Array.mem_push_of_mem _ hLog, ?_⟩
    rw [d.onOneLine_render_record, Bool.and_eq_true]

/-
  A line feed in quotes is kept in the text of a statement, and
  with it the message, the mark and the log go on to a second
  line.
-/
theorem message_spans_quoted_lines :
    let program := ofScript "run.sh" "  " "foo 'a\nb'"
    let d : Diagnostic :=
      ⟨.error, 1, "unsupported construct: foo 'a\nb'"⟩
    program.diagnostics.toList = [d] ∧
    d.spansLines = true ∧
    d.record "run.sh" ∈ program.log ∧
    Row.marks (Draft.ofScript "run.sh" "  "
        "foo 'a\nb'").rows.toList =
      [Text.ofString
        "/* shtoc: run.sh:1: unsupported construct: foo 'a\nb' */"] := by
  repeat rw [Text.ofString_ofList]
  decide +kernel

end Program

end ShellToC
