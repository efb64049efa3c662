import ShellToC.Proofs.BlockReports
import ShellToC.Proofs.Braces

/-
  This file shows that reports and marks keep step: every
  error is marked in the program where it occurs, a
  statement is reported on at most once and on its own line,
  and at the end of the script each conditional or loop that
  is still open is reported where it was opened.

  A statement writes code, but for at most one report.  All
  that is said here about runs follows from that.

  Key definitions include:
    * `Diagnostic.markerText`
    * `Row.opensComment`
    * `Event.isCode`
    * `Event.TellsOnce`
    * `Draft.OpensAt`

  Main declarations:
    * `Command.tellsOnce_events`
    * `Event.marks_rowsAll`
    * `Command.labels_stackAll_events`
    * `Draft.errors_marked_in_order`
-/

namespace ShellToC

------------------------------------------------------------
-- Marks
------------------------------------------------------------

/- The comment that marks a reported error in the program of a file. -/
def Diagnostic.markerText
    (file : Text)
    (d : Diagnostic) : Text :=
  "/* shtoc: " ++ file ++ ":" ++ Text.ofNat d.line ++ ": " ++
    Line.partCommentEnds d.message ++ " */"

/- Whether the text of a row opens a comment. -/
def Row.opensComment
    (row : Row) : Bool :=
  row.line.render.opensComment

------------------------------------------------------------
-- Statements That Are Reported On
------------------------------------------------------------

/- The lines at the end of a block are code. -/
def Frame.isCode
    (frame : Frame) : Bool :=
  frame.epilogue.all Line.isCode

namespace Event

/- Whether the event writes code, now or at the end of a block. -/
def isCode : Event → Bool
  | .write _ line => line.isCode
  | .push frame => frame.isCode
  | .pop => true
  | .countLoop => true
  | .fail _ _ => false
  | .warn _ _ => false

/- The event reports on the given line of the script. -/
def IsReportOn
    (line : Nat) : Event → Prop
  | .fail n _ => n = line
  | .warn n _ => n = line
  | _ => False

/- All of the events are code, but for at most one report on a line. -/
def TellsOnce
    (line : Nat)
    (events : List Event) : Prop :=
  ∃ report : Option Event,
    events.filter (!·.isCode) = report.toList ∧
      ∀ event ∈ report, event.IsReportOn line

theorem filter_of_isCode
    {events : List Event}
    (h : events.all isCode = true) :
    events.filter (!·.isCode) = [] := by
  rw [List.filter_eq_nil_iff]
  intro event hEvent
  simp [List.all_eq_true.mp h event hEvent]

theorem TellsOnce.of_isCode
    (line : Nat)
    {events : List Event}
    (h : events.all isCode = true) :
    TellsOnce line events :=
  ⟨none, filter_of_isCode h, by simp⟩

theorem tellsOnce_fail
    (line : Nat)
    (fault : Fault) :
    TellsOnce line [.fail line fault] :=
  ⟨some (.fail line fault), rfl, by simp [IsReportOn]⟩

/- Code around the events makes no difference. -/
theorem TellsOnce.around
    {line : Nat}
    {events : List Event}
    (h : TellsOnce line events)
    (before after : List Event)
    (hBefore : before.all isCode = true)
    (hAfter : after.all isCode = true) :
    TellsOnce line (before ++ events ++ after) := by
  rcases h with ⟨report, hReport, hLine⟩
  refine ⟨report, ?_, hLine⟩
  rw [List.filter_append, List.filter_append,
    filter_of_isCode hBefore, filter_of_isCode hAfter, hReport]
  simp

theorem TellsOnce.append
    {line : Nat}
    {events after : List Event}
    (h : TellsOnce line events)
    (hAfter : after.all isCode = true) :
    TellsOnce line (events ++ after) :=
  h.around [] after rfl hAfter

------------------------------------------------------------
-- Code
------------------------------------------------------------

theorem all_isCode_lines
    (extra : Nat)
    {ls : List Line}
    (h : ls.all Line.isCode = true) :
    (lines extra ls).all isCode = true := by
  rw [lines, List.all_map]
  exact h

theorem all_isCode_withValuesInScope
    (values : List Value)
    {body : List Line}
    (h : body.all Line.isCode = true) :
    (withValuesInScope values body).all isCode = true := by
  have hDeclarations :
      (values.flatMap Value.declarations).all Line.isCode = true := by
    rw [List.all_flatMap, List.all_eq_true]
    intro value _
    cases value <;> rfl
  have hReleases :
      (values.flatMap Value.releases).all Line.isCode = true := by
    rw [List.all_flatMap, List.all_eq_true]
    intro value _
    cases value <;> rfl
  have hLines : (values.flatMap Value.declarations ++ body ++
      values.flatMap Value.releases).all Line.isCode = true := by
    rw [List.all_append, List.all_append, hDeclarations, h,
      hReleases]
    rfl
  rw [withValuesInScope, inScope, List.cons_append, List.all_cons,
    List.all_append, all_isCode_lines 1 hLines]
  rfl

theorem all_isCode_withValues
    (values : List Value)
    {body : List Line}
    (h : body.all Line.isCode = true) :
    (withValues values body).all isCode = true := by
  unfold withValues
  split
  · exact all_isCode_lines 0 h
  · exact all_isCode_withValuesInScope values h

theorem all_isCode_run
    (command : Text) :
    (run command).all isCode = true :=
  all_isCode_withValues _ rfl

theorem all_isCode_print
    (newline : Bool)
    (template : Template) :
    (print newline template).all isCode = true := by
  apply all_isCode_lines
  cases template with
  | literal text => cases newline <;> rfl
  | format text args => rfl

theorem all_isCode_closeFrame
    {frame : Frame}
    (h : frame.isCode = true) :
    (closeFrame frame).all isCode = true := by
  rw [closeFrame, List.all_cons, all_isCode_lines 0 h]
  rfl

/- The items of a loop are declared and freed by code. -/
theorem all_isCode_openForItems
    (line loop : Nat)
    (var : Text)
    (items : List Template) :
    (openForItems line loop var items).all isCode = true := by
  have hDeclare : (declareItems loop items).isCode = true := by
    unfold declareItems
    split <;> rfl
  have hFree :
      (forFrame line (freeItems loop items)).isCode = true := by
    change (freeItems loop items).all Line.isCode = true
    unfold freeItems
    split
    · rfl
    · rw [List.all_map, List.all_eq_true]
      intro index _
      rfl
  simp only [openForItems, List.all_cons, isCode, hDeclare, hFree]
  rfl

theorem all_isCode_openFor
    (line loops : Nat)
    (var : Text)
    (items : Option Text) :
    (openFor line loops var items).all isCode = true := by
  unfold openFor
  split
  · rfl
  · exact all_isCode_openForItems line (loops + 1) var _

theorem all_isCode_closeChain
    {blocks : List Frame}
    (h : ∀ frame ∈ blocks, frame.isCode = true) :
    (closeChain blocks).all isCode = true := by
  induction blocks with
  | nil => rfl
  | cons frame rest ih =>
      rw [List.forall_mem_cons] at h
      have hFrame := all_isCode_closeFrame h.1
      simp only [closeChain, List.all_append, List.all_cons, hFrame]
      split
      · rw [ih h.2]
        rfl
      · rfl

------------------------------------------------------------
-- At Most One Report
------------------------------------------------------------

/- What is read is written as code, or its fault is reported. -/
theorem tellsOnce_orFail
    (line : Nat)
    {result : Except Fault (List Event)}
    (h : ∀ events, result = .ok events →
      events.all isCode = true) :
    TellsOnce line (orFail line result) := by
  cases result with
  | error fault => exact tellsOnce_fail line fault
  | ok events => exact .of_isCode line (h events rfl)

theorem tellsOnce_orFail_map
    (line : Nat)
    {α : Type}
    (result : Except Fault α)
    {write : α → List Event}
    (h : ∀ value, (write value).all isCode = true) :
    TellsOnce line (orFail line (result.map write)) := by
  cases result with
  | error fault => exact tellsOnce_fail line fault
  | ok value => exact .of_isCode line (h value)

theorem all_isCode_of_echo
    {args : Text}
    {events : List Event}
    (h : echo args = .ok events) :
    events.all isCode = true := by
  unfold echo at h
  repeat' split at h
  all_goals cases h
  all_goals exact all_isCode_print _ _

theorem tellsOnce_echo
    (line : Nat)
    (args : Text) :
    TellsOnce line (orFail line (echo args)) :=
  tellsOnce_orFail line fun _ => all_isCode_of_echo

theorem tellsOnce_test
    (line : Nat)
    (expr : Text) :
    TellsOnce line (test line expr) := by
  unfold test
  split
  · exact .of_isCode line rfl
  · exact (tellsOnce_fail line _).around
      [] [.write 0 .failed] rfl rfl

theorem tellsOnce_check
    (line : Nat)
    (text : Text) :
    TellsOnce line (check line text) := by
  unfold check
  split
  · exact tellsOnce_test line _
  split
  · exact .of_isCode line rfl
  split
  · exact .of_isCode line rfl
  · exact .of_isCode line (all_isCode_run text)

theorem tellsOnce_condition
    (line : Nat)
    (text : Text) :
    TellsOnce line (condition line text) := by
  unfold condition
  split
  · exact (tellsOnce_check line _).append rfl
  · exact tellsOnce_check line text

theorem tellsOnce_openBranch
    (line : Nat)
    (cond : Text)
    {frame : Frame}
    (h : frame.isCode = true) :
    TellsOnce line (openBranch line cond frame) := by
  apply (tellsOnce_condition line cond).append
  simp [isCode, Line.isCode, h]

/-
  An `else` branch is refused or opened.  If it is refused,
  what would stand in it is not written, so that there is
  one report in either case.
-/
theorem tellsOnce_continueElse
    (line : Nat)
    (keyword : Text)
    {blocks : List Frame}
    (hBlocks : ∀ frame ∈ blocks, frame.isCode = true)
    {next : List Event}
    (hNext : TellsOnce line next) :
    TellsOnce line (continueElse line keyword blocks next) := by
  unfold continueElse
  split
  · exact tellsOnce_fail line _
  · rename_i frame rest
    have hFrame : frame.isCode = true :=
      hBlocks frame List.mem_cons_self
    split
    · have hEnter : [pop, write 0 .openElse,
          push { frame with inElse := true }].all isCode = true := by
        simpa [isCode, Line.isCode, Frame.isCode] using hFrame
      have hAround := hNext.around _ [] hEnter rfl
      rwa [List.append_nil] at hAround
    · have hAgain : [pop, push frame].all isCode = true := by
        simpa [isCode] using hFrame
      exact (tellsOnce_fail line (.unopened keyword)).around
        _ [] hAgain rfl

theorem tellsOnce_closeAs
    (line : Nat)
    (keyword : Text)
    (expected : BlockKind)
    {frame : Frame}
    (h : frame.isCode = true) :
    TellsOnce line (closeAs line keyword expected frame) := by
  have hFrame := all_isCode_closeFrame h
  unfold closeAs
  split
  · apply TellsOnce.of_isCode
    rw [List.cons_append, List.all_cons, List.nil_append, hFrame]
    rfl
  · have hWarn : TellsOnce line [mismatch line keyword frame] :=
      ⟨some (mismatch line keyword frame), rfl,
        by simp [mismatch, IsReportOn]⟩
    exact hWarn.around [.pop] _ rfl hFrame

theorem tellsOnce_closeIf
    (line : Nat)
    {blocks : List Frame}
    (h : ∀ frame ∈ blocks, frame.isCode = true) :
    TellsOnce line (closeIf line blocks) := by
  cases blocks with
  | nil => exact tellsOnce_fail line _
  | cons frame rest =>
      rw [List.forall_mem_cons] at h
      refine (tellsOnce_closeAs line "fi" .conditional h.1).append ?_
      split
      · exact all_isCode_closeChain h.2
      · rfl

theorem tellsOnce_closeLoop
    (line : Nat)
    {blocks : List Frame}
    (h : ∀ frame ∈ blocks, frame.isCode = true) :
    TellsOnce line (closeLoop line blocks) := by
  cases blocks with
  | nil => exact tellsOnce_fail line _
  | cons frame rest =>
      exact tellsOnce_closeAs line "done" .loop
        (h frame List.mem_cons_self)

theorem tellsOnce_openWhile
    (line : Nat)
    (cond : Text) :
    TellsOnce line (openWhile line cond) :=
  (tellsOnce_condition line cond).around _ _ rfl rfl

theorem all_isCode_informational
    (command text : Text) :
    (informational command text).all isCode = true := by
  unfold informational
  split
  · rfl
  split
  · rfl
  split
  · rfl
  · exact all_isCode_run text

end Event

namespace Command

/- A statement writes code, but for at most one report on its line. -/
theorem tellsOnce_events
    {blocks : List Frame}
    (hBlocks : ∀ frame ∈ blocks, frame.isCode = true)
    (loops line : Nat)
    (command : Command) :
    Event.TellsOnce line (command.events blocks loops line) := by
  rcases command with ⟨text, form⟩
  cases form with
  | comment => exact .of_isCode line rfl
  | bodyOpen => exact .of_isCode line rfl
  | pipeline stages =>
      exact .of_isCode line
        (Event.all_isCode_withValuesInScope _ rfl)
  | echo args => exact Event.tellsOnce_echo line _
  | arithAssign name expr =>
      exact Event.tellsOnce_orFail_map line _ fun _ => rfl
  | captureAssign name body =>
      exact .of_isCode line
        (Event.all_isCode_withValuesInScope _ rfl)
  | arithPrint expr =>
      exact Event.tellsOnce_orFail_map line _ fun _ => rfl
  | test expr => exact Event.tellsOnce_test line expr
  | changeDir dir =>
      exact Event.tellsOnce_orFail_map line _ fun _ =>
        Event.all_isCode_withValues _ rfl
  | ifOpen cond => exact Event.tellsOnce_openBranch line cond rfl
  | elifBranch cond =>
      exact Event.tellsOnce_continueElse line "elif" hBlocks
        (Event.tellsOnce_openBranch line cond rfl)
  | whileOpen cond => exact Event.tellsOnce_openWhile line cond
  | elseBranch =>
      exact Event.tellsOnce_continueElse line "else" hBlocks
        (.of_isCode line rfl)
  | ifClose => exact Event.tellsOnce_closeIf line hBlocks
  | forOpen var items =>
      exact .of_isCode line
        (Event.all_isCode_openFor line loops var items)
  | loopClose => exact Event.tellsOnce_closeLoop line hBlocks
  | exit code =>
      exact Event.tellsOnce_orFail_map line _ fun _ => rfl
  | background body =>
      exact .of_isCode line (Event.all_isCode_withValues _ rfl)
  | assign name value =>
      exact (Event.TellsOnce.of_isCode line
        (Event.all_isCode_withValues _ rfl)).append rfl
  | informational name args =>
      exact .of_isCode line (Event.all_isCode_informational _ _)
  | varPrint =>
      exact .of_isCode line (Event.all_isCode_print true _)
  | unsupported => exact Event.tellsOnce_fail line _

end Command

------------------------------------------------------------
-- Marks and Errors
------------------------------------------------------------

/- The texts of the rows that open a comment. -/
def Row.marks
    (rows : List Row) : List Text :=
  (rows.filter opensComment).map (·.line.render)

namespace Event

/- Whether the event is code or a report. -/
def isProper : Event → Bool
  | .fail _ _ => true
  | .warn _ _ => true
  | event => event.isCode

theorem TellsOnce.all_isProper
    {line : Nat}
    {events : List Event}
    (h : TellsOnce line events) :
    events.all isProper = true := by
  rcases h with ⟨report, hReport, hLine⟩
  rw [List.all_eq_true]
  intro event hEvent
  by_cases hCode : event.isCode = true
  · cases event with
    | fail line fault => rfl
    | warn line message => rfl
    | _ => exact hCode
  · have hMem : event ∈ events.filter (!·.isCode) :=
      List.mem_filter.mpr ⟨hEvent, by simpa using hCode⟩
    rw [hReport, Option.mem_toList] at hMem
    have hOn := hLine event hMem
    cases event with
    | fail line fault => rfl
    | warn line message => rfl
    | _ => exact hOn.elim

/- What is reported is what the events other than code report. -/
theorem flatMap_reports_filter
    (events : List Event) :
    events.flatMap reports =
      (events.filter (!·.isCode)).flatMap reports := by
  induction events with
  | nil => rfl
  | cons event events ih =>
      rw [List.flatMap_cons, List.filter_cons, ih]
      cases hCode : event.isCode with
      | false => simp
      | true =>
          have hNone : event.reports = [] := by
            cases event with
            | fail line fault => cases hCode
            | warn line message => cases hCode
            | _ => rfl
          simp [hNone]

theorem TellsOnce.exists_report
    {line : Nat}
    {events : List Event}
    (h : TellsOnce line events) :
    ∃ report : Option Diagnostic,
      events.flatMap reports = report.toList ∧
        ∀ d ∈ report, d.line = line := by
  rcases h with ⟨report, hReport, hLine⟩
  rw [flatMap_reports_filter, hReport]
  cases report with
  | none => exact ⟨none, rfl, by simp⟩
  | some event =>
      have hOn := hLine event rfl
      cases event with
      | fail n fault =>
          exact ⟨some ⟨.error, n, fault.message⟩, rfl,
            by simpa [IsReportOn] using hOn⟩
      | warn n message =>
          exact ⟨some ⟨.warn, n, message⟩, rfl,
            by simpa [IsReportOn] using hOn⟩
      | _ => exact hOn.elim

/-
  Proper events mark what they report as errors, one by one
  and in order.  Code adds to neither side, and a warning is
  no error.
-/
theorem marks_rowsAll
    {events : List Event}
    (h : events.all isProper = true)
    (file : Text)
    (blocks : List Frame) :
    Row.marks (rowsAll file blocks events) =
      ((events.flatMap reports).filter Diagnostic.isError).map
        (Diagnostic.markerText file) := by
  induction events generalizing blocks with
  | nil => rfl
  | cons event events ih =>
      rw [List.all_cons, Bool.and_eq_true] at h
      have hFirst :
          Row.marks (event.rows file blocks.length) =
            (event.reports.filter Diagnostic.isError).map
              (Diagnostic.markerText file) := by
        cases event with
        | write extra line =>
            have hRow : Row.opensComment
                ⟨blocks.length + 1 + extra, line⟩ = false :=
              Line.opensComment_of_isCode h.1
            simp [rows, reports, Row.marks, hRow]
        | fail line fault =>
            have hRow : Row.opensComment
                ⟨blocks.length + 1,
                  .marker file line fault.message⟩ = true :=
              Line.opensComment_marker file line fault.message
            simp only [rows, reports, Row.marks, List.filter_cons,
              hRow]
            rfl
        | warn line message => rfl
        | push frame => rfl
        | pop => rfl
        | countLoop => rfl
      have hRest := ih h.2 (event.stack blocks)
      rw [rowsAll, List.flatMap_cons, List.filter_append,
        List.map_append, ← hFirst, ← hRest]
      simp [Row.marks]

/- Proper events leave only code for the ends of blocks. -/
theorem isCode_of_mem_stackAll
    {events : List Event}
    (h : events.all isProper = true)
    {blocks : List Frame}
    (hBlocks : ∀ frame ∈ blocks, frame.isCode = true) :
    ∀ frame ∈ stackAll blocks events, frame.isCode = true := by
  induction events generalizing blocks with
  | nil => exact hBlocks
  | cons event events ih =>
      rw [List.all_cons, Bool.and_eq_true] at h
      apply ih h.2
      cases event with
      | push frame => exact List.forall_mem_cons.mpr ⟨h.1, hBlocks⟩
      | pop =>
          intro frame hFrame
          exact hBlocks frame (List.mem_of_mem_tail hFrame)
      | _ => exact hBlocks

/- What is reported about a block that is never closed. -/
def unclosedReport
    (frame : Frame) : Diagnostic :=
  ⟨.error, frame.line, (Fault.unclosed frame.opener).message⟩

/- The end of the script reports on the blocks that are not chained. -/
theorem flatMap_reports_closeAll
    {blocks : List Frame}
    (h : ∀ frame ∈ blocks, frame.isCode = true) :
    (closeAll blocks).all isProper = true ∧
      (closeAll blocks).flatMap reports =
        (blocks.filter (!·.chained)).map unclosedReport := by
  induction blocks with
  | nil => exact ⟨rfl, rfl⟩
  | cons frame rest ih =>
      rw [List.forall_mem_cons] at h
      have hClose := TellsOnce.of_isCode 0
        (all_isCode_closeFrame h.1)
      have hNone : (closeFrame frame).flatMap reports = [] := by
        rw [flatMap_reports_filter,
          filter_of_isCode (all_isCode_closeFrame h.1)]
        rfl
      rcases ih h.2 with ⟨hProper, hReports⟩
      rw [closeAll] at hProper hReports
      rw [closeAll, List.flatMap_cons, List.all_append,
        List.flatMap_append, hProper, hReports]
      cases hChained : frame.chained with
      | true =>
          simp [hChained, hNone, hClose.all_isProper, isProper,
            isCode, reports]
      | false =>
          simp [hChained, hNone, hClose.all_isProper, isProper,
            isCode, reports, unclosedReport]

end Event

/- A whole run of statements is code and reports. -/
theorem Command.all_isProper_eventsAll
    {blocks : List Frame}
    (hBlocks : ∀ frame ∈ blocks, frame.isCode = true)
    (loops : Nat)
    (commands : List (Nat × Command)) :
    (eventsAll blocks loops commands).all Event.isProper =
      true := by
  induction commands generalizing blocks loops with
  | nil => rfl
  | cons command commands ih =>
      rcases command with ⟨line, command⟩
      have hFirst :=
        (tellsOnce_events hBlocks loops line command).all_isProper
      have hRest := ih
        (Event.isCode_of_mem_stackAll hFirst hBlocks)
        (loops + Event.loopsAll (command.events blocks loops line))
      rw [eventsAll, List.all_append, hFirst, hRest]
      rfl

------------------------------------------------------------
-- Where Blocks Are Opened
------------------------------------------------------------

/- The line and the keyword with which a block was opened. -/
def Frame.label
    (frame : Frame) : Nat × Text :=
  (frame.line, frame.opener)

/- The keyword with which a statement opens a block. -/
def Form.opener? : Form → Option Text
  | .ifOpen _ => some "if"
  | .elifBranch _ => some "elif"
  | .whileOpen _ => some "while"
  | .forOpen _ _ => some "for"
  | _ => none

/- A chain that is closed leaves the blocks around it. -/
theorem Frame.unchain_suffix
    (blocks : List Frame) :
    unchain blocks <:+ blocks := by
  induction blocks with
  | nil => exact List.suffix_refl []
  | cons frame rest ih =>
      simp only [unchain]
      split
      · exact ih.trans (List.suffix_cons frame rest)
      · exact List.suffix_cons frame rest

namespace Event

theorem stackAll_closeIf
    (line : Nat)
    (blocks : List Frame) :
    stackAll blocks (closeIf line blocks) =
      Frame.unchain blocks := by
  cases blocks with
  | nil => rfl
  | cons frame rest =>
      simp only [closeIf, Frame.unchain]
      rw [stackAll_append, stackAll_closeAs]
      split
      · exact (stackAll_closeChain rest).1
      · rfl

theorem stackAll_openBranch
    (line : Nat)
    (cond : Text)
    (frame : Frame)
    (blocks : List Frame) :
    stackAll blocks (openBranch line cond frame) =
      frame :: blocks := by
  rw [openBranch, stackAll_append,
    stackAll_of_steady (all_isSteady_condition line cond)]
  rfl

theorem stackAll_openWhile
    (line : Nat)
    (cond : Text)
    (blocks : List Frame) :
    stackAll blocks (openWhile line cond) =
      ⟨.loop, "while", line, false, false, []⟩ :: blocks := by
  rw [openWhile, stackAll_append, stackAll_append]
  have hCondition := stackAll_of_steady
    (all_isSteady_condition line cond)
    (⟨.loop, "while", line, false, false, []⟩ :: blocks)
  change stackAll (stackAll (_ :: blocks)
    (condition line cond)) _ = _
  rw [hCondition]
  rfl

theorem exists_stackAll_openFor
    (line loops : Nat)
    (var : Text)
    (items : Option Text)
    (blocks : List Frame) :
    ∃ epilogue, stackAll blocks (openFor line loops var items) =
      forFrame line epilogue :: blocks := by
  unfold openFor
  split
  · exact ⟨[], rfl⟩
  · exact ⟨_, rfl⟩

/- An `else` branch leaves the blocks as they are labelled. -/
theorem labels_stackAll_continueElse
    (line : Nat)
    (keyword : Text)
    (blocks : List Frame) :
    (∀ next, stackAll blocks
        (continueElse line keyword blocks next) = blocks) ∨
      ∃ opened, opened.map Frame.label = blocks.map Frame.label ∧
        ∀ next, stackAll blocks
            (continueElse line keyword blocks next) =
          stackAll opened next := by
  cases blocks with
  | nil => exact Or.inl fun next => rfl
  | cons frame rest =>
      by_cases hElse : frame.takesElse = true
      · right
        refine ⟨{ frame with inElse := true } :: rest, rfl, ?_⟩
        intro next
        exact (stackAll_continueElse line keyword hElse rest next).1
      · left
        intro next
        simp only [continueElse, hElse]
        rfl

end Event

/-
  A statement opens one block on its own line, or it leaves
  of the open blocks those around the ones that it closes.
-/
theorem Command.labels_stackAll_events
    (blocks : List Frame)
    (loops line : Nat)
    (command : Command) :
    let after := Event.stackAll blocks
      (command.events blocks loops line)
    after.map Frame.label <:+ blocks.map Frame.label ∨
      ∃ opener, command.form.opener? = some opener ∧
        after.map Frame.label =
          (line, opener) :: blocks.map Frame.label := by
  by_cases hRole : command.form.blockRole = .plain
  · left
    have hSteady := Event.all_isSteady_of_all_isPlain
      (all_isPlain_events hRole blocks loops line)
    simp only [Event.stackAll_of_steady hSteady,
      List.suffix_refl]
  · rcases command with ⟨text, form⟩
    cases form with
    | ifOpen cond =>
        right
        refine ⟨"if", rfl, ?_⟩
        simp only [events, Event.openIf, Event.stackAll_openBranch]
        rfl
    | elifBranch cond =>
        simp only [events, Event.openElif]
        rcases Event.labels_stackAll_continueElse line "elif" blocks
          with hSame | ⟨opened, hLabels, hOpened⟩
        · left
          simp only [hSame, List.suffix_refl]
        · right
          refine ⟨"elif", rfl, ?_⟩
          rw [hOpened, Event.stackAll_openBranch, List.map_cons,
            hLabels]
          rfl
    | elseBranch =>
        left
        simp only [events, Event.openElse]
        rcases Event.labels_stackAll_continueElse line "else" blocks
          with hSame | ⟨opened, hLabels, hOpened⟩
        · simp only [hSame, List.suffix_refl]
        · rw [hOpened, ← hLabels]
          exact List.suffix_refl _
    | ifClose =>
        left
        simp only [events, Event.stackAll_closeIf]
        exact (Frame.unchain_suffix blocks).map Frame.label
    | whileOpen cond =>
        right
        refine ⟨"while", rfl, ?_⟩
        simp only [events, Event.stackAll_openWhile]
        rfl
    | forOpen var items =>
        right
        refine ⟨"for", rfl, ?_⟩
        rcases Event.exists_stackAll_openFor line loops var items
          blocks with ⟨epilogue, hStack⟩
        simp only [events, hStack]
        rfl
    | loopClose =>
        left
        simp only [events]
        cases blocks with
        | nil => exact List.suffix_refl _
        | cons frame rest =>
            rw [Event.closeLoop, Event.stackAll_closeAs]
            exact (List.suffix_cons frame rest).map Frame.label
    | _ => exact absurd rfl hRole

namespace Draft

/-
  The block at a height was opened on a line by a keyword:
  the statement there found no more blocks open than stand
  below, and from it on to the end there have always been
  more.
-/
def OpensAt
    (draft : Draft)
    (commands : List (Nat × Command))
    (height line : Nat)
    (opener : Text) : Prop :=
  ∃ before command after,
    commands = before ++ (line, command) :: after ∧
    command.form.opener? = some opener ∧
    (draft.addCommands before).depth ≤ height ∧
    ∀ done, done <+: after →
      height < (draft.addCommands
        (before ++ (line, command) :: done)).depth

/- Every open block bears the label of the statement that opened it. -/
def KnowsOpeners
    (draft : Draft)
    (commands : List (Nat × Command)) : Prop :=
  ∀ height line opener,
    ((draft.addCommands commands).blocks.map
        Frame.label).reverse[height]? = some (line, opener) →
      draft.OpensAt commands height line opener

/- A block that stays open was opened where it was before. -/
theorem OpensAt.concat
    {draft : Draft}
    {commands : List (Nat × Command)}
    {height line : Nat}
    {opener : Text}
    (h : draft.OpensAt commands height line opener)
    {command : Nat × Command}
    (hDepth : height <
      (draft.addCommands (commands ++ [command])).depth) :
    draft.OpensAt (commands ++ [command]) height line opener := by
  rcases h with ⟨before, opening, after, rfl, hOpener, hBefore,
    hAfter⟩
  refine ⟨before, opening, after ++ [command], by simp, hOpener,
    hBefore, ?_⟩
  intro done hDone
  rcases List.prefix_concat_iff.mp hDone with rfl | hDone
  · simpa using hDepth
  · exact hAfter done hDone

/- One more statement, from what it can do to the open blocks. -/
theorem KnowsOpeners.concat
    {draft : Draft}
    {commands : List (Nat × Command)}
    (h : draft.KnowsOpeners commands)
    (command : Nat × Command) :
    draft.KnowsOpeners (commands ++ [command]) := by
  rcases command with ⟨line, command⟩
  intro height n opener hLabel
  have hBlocks : (draft.addCommands
      (commands ++ [(line, command)])).blocks =
        Event.stackAll (draft.addCommands commands).blocks
          (command.events (draft.addCommands commands).blocks
            (draft.addCommands commands).loops line) := by
    rw [addCommands_append, addCommands_cons, addCommands_nil,
      addCommand, blocks_extend]
  have hLess := (List.getElem?_eq_some_iff.mp hLabel).1
  have hDepth : height < (draft.addCommands
      (commands ++ [(line, command)])).depth := by
    simpa [depth] using hLess
  have hStep := Command.labels_stackAll_events
    (draft.addCommands commands).blocks
    (draft.addCommands commands).loops line command
  rw [← hBlocks] at hStep
  rcases hStep with hSuffix | ⟨keyword, hKeyword, hPush⟩
  · rcases List.reverse_prefix.mpr hSuffix with ⟨closed, hClosed⟩
    have hOld : ((draft.addCommands commands).blocks.map
        Frame.label).reverse[height]? = some (n, opener) := by
      rw [← hClosed, List.getElem?_append_left hLess]
      exact hLabel
    exact (h height n opener hOld).concat hDepth
  · rw [hPush, List.reverse_cons] at hLabel
    by_cases hHeight : height < (draft.addCommands commands).depth
    · have hOld : ((draft.addCommands commands).blocks.map
          Frame.label).reverse[height]? = some (n, opener) := by
        rwa [List.getElem?_append_left
          (by simpa [depth] using hHeight)] at hLabel
      exact (h height n opener hOld).concat hDepth
    · have hTop : height = (draft.addCommands commands).depth := by
        have hLength := congrArg List.length hPush
        simp only [List.length_map, List.length_cons] at hLength
        simp only [depth] at hDepth hHeight ⊢
        omega
      rw [List.getElem?_append_right
        (by simpa [depth] using hHeight), hTop] at hLabel
      simp only [List.length_reverse, List.length_map, depth,
        Nat.sub_self, List.getElem?_cons_zero,
        Option.some.injEq, Prod.mk.injEq] at hLabel
      rcases hLabel with ⟨rfl, rfl⟩
      refine ⟨commands, command, [], rfl, hKeyword,
        Nat.le_of_eq hTop.symm, ?_⟩
      intro done hDone
      rw [List.prefix_nil.mp hDone]
      exact hDepth

theorem KnowsOpeners.append
    {draft : Draft}
    {commands : List (Nat × Command)}
    (h : draft.KnowsOpeners commands)
    (more : List (Nat × Command)) :
    draft.KnowsOpeners (commands ++ more) := by
  induction more generalizing commands with
  | nil => simpa using h
  | cons command more ih =>
      have hMore := ih (h.concat command)
      rwa [List.append_assoc] at hMore

/- Nothing is open at the start, so all openers are known from there. -/
theorem knowsOpeners_start
    (file unit : Text)
    (commands : List (Nat × Command)) :
    (start file unit).KnowsOpeners commands := by
  have hNil : (start file unit).KnowsOpeners [] := by
    intro height line opener hLabel
    simp [start] at hLabel
  exact hNil.append commands

------------------------------------------------------------
-- Runs
------------------------------------------------------------

/- The blocks that statements leave open end with code. -/
theorem isCode_of_mem_blocks
    (file unit : Text)
    (commands : List (Nat × Command)) :
    ∀ frame ∈ ((start file unit).addCommands commands).blocks,
      frame.isCode = true := by
  rw [addCommands_eq_extend, blocks_extend]
  apply Event.isCode_of_mem_stackAll
  · exact Command.all_isProper_eventsAll (by simp [start]) _ commands
  · simp [start]

/- Up to the end of the script, errors are marked one by one. -/
theorem marks_finish_addCommands
    (file unit : Text)
    (commands : List (Nat × Command)) :
    let final := ((start file unit).addCommands commands).finish
    Row.marks final.rows.toList =
      (final.diagnostics.toList.filter Diagnostic.isError).map
        (Diagnostic.markerText file) := by
  have hClose := (Event.flatMap_reports_closeAll
    (isCode_of_mem_blocks file unit commands)).1
  rw [addCommands_eq_extend, blocks_extend] at hClose
  have hProper : (Command.eventsToEnd [] 0 commands).all
      Event.isProper = true := by
    rw [Command.eventsToEnd, List.all_append,
      Command.all_isProper_eventsAll (by simp) 0 commands]
    exact hClose
  simp only [finish_addCommands_eq_extend, toList_rows_extend,
    toList_diagnostics_extend]
  exact Event.marks_rowsAll hProper file []

/-
  The errors that are reported about statements, up to the
  end of the script, are those that are marked in the
  program: the same ones, in the same order, each on its
  line and with its message.  Each statement is reported on
  at most once, on its own line.  The end of the script
  reports the open blocks that are not chained, the
  innermost first, each on the line where it was opened.
-/
theorem errors_marked_in_order
    (file unit : Text)
    (commands : List (Nat × Command)) :
    let draft := (start file unit).addCommands commands
    Row.marks draft.finish.rows.toList =
      (draft.finish.diagnostics.toList.filter
        Diagnostic.isError).map (Diagnostic.markerText file) ∧
    (∀ before line command, ∃ report : Option Diagnostic,
      ((start file unit).addCommands
          (before ++ [(line, command)])).diagnostics.toList =
        ((start file unit).addCommands before).diagnostics.toList ++
          report.toList ∧
      ∀ d ∈ report, d.line = line) ∧
    draft.finish.diagnostics.toList =
      draft.diagnostics.toList ++
        (draft.blocks.filter (!·.chained)).map
          Event.unclosedReport ∧
    (∀ height frame, draft.blocks.reverse[height]? = some frame →
      (start file unit).OpensAt commands height frame.line
        frame.opener) := by
  intro draft
  refine ⟨marks_finish_addCommands file unit commands, ?_, ?_, ?_⟩
  · intro before line command
    have hOnce := Command.tellsOnce_events
      (isCode_of_mem_blocks file unit before)
      ((start file unit).addCommands before).loops line command
    rcases hOnce.exists_report with ⟨report, hReport, hLine⟩
    refine ⟨report, ?_, hLine⟩
    rw [addCommands_append, addCommands_cons, addCommands_nil,
      addCommand, toList_diagnostics_extend, hReport]
  · have hEnd := Event.flatMap_reports_closeAll
      (isCode_of_mem_blocks file unit commands)
    rw [finish, toList_diagnostics_extend, hEnd.2]
  · intro height frame hFrame
    apply knowsOpeners_start file unit commands
    rw [← List.map_reverse, List.getElem?_map, hFrame]
    rfl

end Draft

end ShellToC
