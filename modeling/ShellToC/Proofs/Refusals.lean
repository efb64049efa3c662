import ShellToC.Proofs.FaultReports
import ShellToC.Proofs.Requests

/-
  This file shows that a refused statement leaves a draft as
  it is, but for the mark and the report of its fault.

  Most statements are refused before anything is written.  A
  branch of a conditional is refused only after the block
  around it was closed, which is then opened again as it was.

  Key definitions include:
    * `Command.fault?`
    * `Form.holdsTest`
    * `Draft.OnlyMarks`

  Main declarations:
    * `Command.events_of_fault?`
    * `Command.no_fail_of_fault?_eq_none`
    * `Draft.refused_leaves_state`
-/

namespace ShellToC

------------------------------------------------------------
-- Refused Statements
------------------------------------------------------------

/- The fault that takes the place of a result. -/
def Fault.of?
    {α : Type} : Except Fault α → Option Fault
  | .ok _ => none
  | .error fault => some fault

namespace Command

/- The fault of a branch without a conditional that takes it. -/
def branchFault?
    (keyword : Text) : List Frame → Option Fault
  | [] => some (.unopened keyword)
  | frame :: _ =>
      if frame.takesElse then none else some (.unopened keyword)

/- The fault of a keyword that has no block to close. -/
def closingFault?
    (keyword : Text) : List Frame → Option Fault
  | [] => some (.unopened keyword)
  | _ :: _ => none

/- The fault for which a statement is refused inside of blocks. -/
def fault?
    (blocks : List Frame)
    (command : Command) : Option Fault :=
  match command.form with
  | .echo args => Fault.of? (Event.echo (args.getD []))
  | .arithAssign name expr =>
      Fault.of? (Event.arithAssign name expr)
  | .arithPrint expr => Fault.of? (Event.arithPrint expr)
  | .changeDir dir => Fault.of? (Event.changeDir dir)
  | .exit code => Fault.of? (Event.exit code)
  | .elifBranch _ => branchFault? "elif" blocks
  | .elseBranch => branchFault? "else" blocks
  | .ifClose => closingFault? "fi" blocks
  | .loopClose => closingFault? "done" blocks
  | .unsupported => some (.construct command.text)
  | _ => none

end Command

/-
  Whether a statement of the form holds a test.  The fault
  of a test is marked, and the statement goes on.
-/
def Form.holdsTest : Form → Bool
  | .test _ => true
  | .ifOpen _ => true
  | .elifBranch _ => true
  | .whileOpen _ => true
  | _ => false

------------------------------------------------------------
-- What a Refused Statement Does
------------------------------------------------------------

namespace Event

/- Events that leave the blocks as they are and write nothing. -/
def Restores
    (blocks : List Frame)
    (events : List Event) : Prop :=
  events = [] ∨
    ∃ frame rest, blocks = frame :: rest ∧
      events = [.pop, .push frame]

theorem orFail_of_fault?
    (line : Nat)
    {result : Except Fault (List Event)}
    {fault : Fault}
    (h : Fault.of? result = some fault) :
    orFail line result = [.fail line fault] := by
  cases result with
  | ok events => cases h
  | error other =>
      cases h
      rfl

theorem continueElse_of_fault?
    (line : Nat)
    (keyword : Text)
    (blocks : List Frame)
    (next : List Event)
    {fault : Fault}
    (h : Command.branchFault? keyword blocks = some fault) :
    ∃ undone, Restores blocks undone ∧
      continueElse line keyword blocks next =
        undone ++ [.fail line fault] := by
  cases blocks with
  | nil =>
      cases h
      exact ⟨[], Or.inl rfl, rfl⟩
  | cons frame rest =>
      by_cases hTakes : frame.takesElse
      · simp [Command.branchFault?, hTakes] at h
      · simp only [Command.branchFault?, if_neg hTakes] at h
        cases h
        refine ⟨[.pop, .push frame],
          Or.inr ⟨frame, rest, rfl, rfl⟩, ?_⟩
        simp [continueElse, hTakes]

end Event

/- A refused statement marks its fault, and nothing else stays. -/
theorem Command.events_of_fault?
    (blocks : List Frame)
    (loops line : Nat)
    (command : Command)
    {fault : Fault}
    (h : command.fault? blocks = some fault) :
    ∃ undone, Event.Restores blocks undone ∧
      command.events blocks loops line =
        undone ++ [.fail line fault] := by
  have hOnly {result : Except Fault (List Event)}
      (hResult : Fault.of? result = some fault) :
      ∃ undone, Event.Restores blocks undone ∧
        Event.orFail line result =
          undone ++ [.fail line fault] :=
    ⟨[], Or.inl rfl, Event.orFail_of_fault? line hResult⟩
  rcases command with ⟨text, form⟩
  cases form with
  | echo args => exact hOnly h
  | arithAssign name expr => exact hOnly h
  | arithPrint expr => exact hOnly h
  | changeDir dir => exact hOnly h
  | exit code => exact hOnly h
  | elifBranch cond =>
      exact Event.continueElse_of_fault? line "elif" blocks _ h
  | elseBranch =>
      exact Event.continueElse_of_fault? line "else" blocks [] h
  | ifClose =>
      cases blocks with
      | nil =>
          cases h
          exact ⟨[], Or.inl rfl, rfl⟩
      | cons frame rest => cases h
  | loopClose =>
      cases blocks with
      | nil =>
          cases h
          exact ⟨[], Or.inl rfl, rfl⟩
      | cons frame rest => cases h
  | unsupported =>
      cases h
      exact ⟨[], Or.inl rfl, rfl⟩
  | _ => cases h

namespace Draft

/-
  Of the draft after a statement on a line: the fault is
  marked by one line at the indentation that holds there and
  reported by one error, and all else is as it was before.
  What is written next is indented as before, for the blocks
  and the unit are the same.
-/
structure OnlyMarks
    (draft : Draft)
    (line : Nat)
    (fault : Fault)
    (after : Draft) : Prop where
  file : after.file = draft.file
  unit : after.unit = draft.unit
  blocks : after.blocks = draft.blocks
  loops : after.loops = draft.loops
  usage : after.usage = draft.usage
  rows : after.rows.toList = draft.rows.toList ++
    [⟨draft.depth + 1, .marker draft.file line fault.message⟩]
  body : after.body = draft.body ++
    (draft.indentation ++
      (Line.marker draft.file line fault.message).render ++
      ['\n'])
  diagnostics : after.diagnostics.toList =
    draft.diagnostics.toList ++ [⟨.error, line, fault.message⟩]

theorem onlyMarks_extend
    (draft : Draft)
    (line : Nat)
    (fault : Fault)
    {undone : List Event}
    (h : Event.Restores draft.blocks undone) :
    draft.OnlyMarks line fault
      (draft.extend (undone ++ [.fail line fault])) := by
  -- Closing a block and opening it again is as good as nothing.
  have hUndone : Event.stackAll draft.blocks undone =
        draft.blocks ∧
      Event.rowsAll draft.file draft.blocks undone = [] ∧
      Event.loopsAll undone = 0 ∧
      undone.flatMap Event.needs = [] ∧
      undone.flatMap Event.reports = [] := by
    rcases h with rfl | ⟨frame, rest, hBlocks, rfl⟩
    · exact ⟨rfl, rfl, rfl, rfl, rfl⟩
    · rw [hBlocks]
      exact ⟨rfl, rfl, rfl, rfl, rfl⟩
  rcases hUndone with ⟨hStack, hRows, hLoops, hNeeds, hReports⟩
  have hBlocks : (draft.extend
      (undone ++ [.fail line fault])).blocks = draft.blocks := by
    rw [blocks_extend, Event.stackAll_append, hStack]
    rfl
  have hAdded : (draft.extend
      (undone ++ [.fail line fault])).rows.toList =
      draft.rows.toList ++
        [⟨draft.depth + 1,
          .marker draft.file line fault.message⟩] := by
    rw [toList_rows_extend, Event.rowsAll_append, hRows, hStack]
    rfl
  refine ⟨file_extend draft _, unit_extend draft _, hBlocks,
    ?_, ?_, hAdded, ?_, ?_⟩
  · rw [loops_extend, Event.loopsAll_append, hLoops]
    rfl
  · rw [usage_extend, List.flatMap_append, hNeeds]
    rfl
  · rw [body, hAdded, unit_extend, List.flatMap_append]
    simp [Row.render, body, indentation]
  · rw [toList_diagnostics_extend, List.flatMap_append, hReports]
    rfl

end Draft

------------------------------------------------------------
-- Statements That Are Not Refused
------------------------------------------------------------

namespace Event

/- Whether the event marks a fault. -/
def isFail : Event → Bool
  | .fail _ _ => true
  | _ => false

theorem not_isFail_of_isCode
    {events : List Event}
    (h : events.all isCode = true) :
    ∀ event ∈ events, event.isFail = false := by
  intro event hEvent
  have hCode := List.all_eq_true.mp h event hEvent
  cases event with
  | fail line fault => cases hCode
  | _ => rfl

theorem not_isFail_closeFrame
    (frame : Frame) :
    ∀ event ∈ closeFrame frame, event.isFail = false := by
  intro event hEvent
  rcases List.mem_cons.mp hEvent with rfl | hLine
  · rfl
  · rcases List.mem_map.mp hLine with ⟨line, _, rfl⟩
    rfl

theorem not_isFail_closeAs
    (line : Nat)
    (keyword : Text)
    (expected : BlockKind)
    (frame : Frame) :
    ∀ event ∈ closeAs line keyword expected frame,
      event.isFail = false := by
  intro event hEvent
  unfold closeAs at hEvent
  rcases List.mem_append.mp hEvent with hFirst | hClose
  · rcases List.mem_cons.mp hFirst with rfl | hWarn
    · rfl
    · split at hWarn
      · cases hWarn
      · rw [List.mem_singleton.mp hWarn]
        rfl
  · exact not_isFail_closeFrame frame event hClose

theorem not_isFail_closeChain
    (blocks : List Frame) :
    ∀ event ∈ closeChain blocks, event.isFail = false := by
  induction blocks with
  | nil => simp [closeChain]
  | cons frame rest ih =>
      intro event hEvent
      rw [closeChain] at hEvent
      rcases List.mem_append.mp hEvent with hFirst | hRest
      · rcases List.mem_cons.mp hFirst with rfl | hClose
        · rfl
        · exact not_isFail_closeFrame frame event hClose
      · split at hRest
        · exact ih event hRest
        · cases hRest

/- What was read without a fault is written as code. -/
theorem not_isFail_orFail
    (line : Nat)
    {result : Except Fault (List Event)}
    (h : Fault.of? result = none)
    (hCode : ∀ events, result = .ok events →
      events.all isCode = true) :
    ∀ event ∈ orFail line result, event.isFail = false := by
  cases result with
  | error fault => cases h
  | ok events => exact not_isFail_of_isCode (hCode events rfl)

theorem not_isFail_orFail_map
    (line : Nat)
    {α : Type}
    {result : Except Fault α}
    {write : α → List Event}
    (h : Fault.of? (result.map write) = none)
    (hCode : ∀ value, (write value).all isCode = true) :
    ∀ event ∈ orFail line (result.map write),
      event.isFail = false := by
  refine not_isFail_orFail line h ?_
  intro events hEvents
  cases result with
  | error fault => cases hEvents
  | ok value =>
      cases hEvents
      exact hCode value

end Event

/- A statement that is not refused marks no fault, a test apart. -/
theorem Command.no_fail_of_fault?_eq_none
    (blocks : List Frame)
    (loops line : Nat)
    (command : Command)
    (h : command.fault? blocks = none)
    (hTest : command.form.holdsTest = false) :
    ∀ event ∈ command.events blocks loops line,
      event.isFail = false := by
  rcases command with ⟨text, form⟩
  cases form with
  | comment => simp [events]
  | bodyOpen => simp [events]
  | pipeline stages =>
      exact Event.not_isFail_of_isCode
        (Event.all_isCode_withValuesInScope _ rfl)
  | echo args =>
      exact Event.not_isFail_orFail line h fun _ =>
        Event.all_isCode_of_echo
  | arithAssign name expr =>
      exact Event.not_isFail_orFail_map line h fun _ => rfl
  | captureAssign name body =>
      exact Event.not_isFail_of_isCode
        (Event.all_isCode_withValuesInScope _ rfl)
  | arithPrint expr =>
      exact Event.not_isFail_orFail_map line h fun _ => rfl
  | test expr => cases hTest
  | changeDir dir =>
      exact Event.not_isFail_orFail_map line h fun _ =>
        Event.all_isCode_withValues _ rfl
  | ifOpen cond => cases hTest
  | elifBranch cond => cases hTest
  | whileOpen cond => cases hTest
  | elseBranch =>
      cases blocks with
      | nil => cases h
      | cons frame rest =>
          by_cases hTakes : frame.takesElse
          · simp [events, Event.openElse, Event.continueElse,
              hTakes, Event.isFail]
          · simp [fault?, branchFault?, hTakes] at h
  | ifClose =>
      cases blocks with
      | nil => cases h
      | cons frame rest =>
          intro event hEvent
          rcases List.mem_append.mp hEvent with hClose | hChain
          · exact Event.not_isFail_closeAs _ _ _ _ event hClose
          · split at hChain
            · exact Event.not_isFail_closeChain rest event hChain
            · cases hChain
  | forOpen var items =>
      exact Event.not_isFail_of_isCode
        (Event.all_isCode_openFor line loops var items)
  | loopClose =>
      cases blocks with
      | nil => cases h
      | cons frame rest =>
          exact Event.not_isFail_closeAs line "done" .loop frame
  | exit code =>
      exact Event.not_isFail_orFail_map line h fun _ => rfl
  | background body =>
      exact Event.not_isFail_of_isCode
        (Event.all_isCode_withValues _ rfl)
  | assign name value =>
      apply Event.not_isFail_of_isCode
      change (Event.withValues _ _ ++ _).all Event.isCode = true
      rw [List.all_append, Event.all_isCode_withValues _ rfl]
      rfl
  | informational name args =>
      exact Event.not_isFail_of_isCode
        (Event.all_isCode_informational name text)
  | varPrint =>
      exact Event.not_isFail_of_isCode
        (Event.all_isCode_print true _)
  | unsupported => cases h

------------------------------------------------------------
-- States After Faults
------------------------------------------------------------

/-
  A refused statement only marks its fault.  One that is not
  refused and holds no test reports no error.

  Tests and arithmetic, written while helpers are needed one
  by one, give what is read from them.  If that is a fault,
  the helpers are those from before.
-/
theorem Draft.refused_leaves_state
    (draft : Draft)
    (line : Nat)
    (command : Command) :
    let after := draft.addCommand line command
    (∀ fault, command.fault? draft.blocks = some fault →
      draft.OnlyMarks line fault after) ∧
    (command.fault? draft.blocks = none →
      command.form.holdsTest = false →
      ∃ added, after.diagnostics.toList =
          draft.diagnostics.toList ++ added ∧
        ∀ d ∈ added, d.level ≠ .error) ∧
    (∀ expr : Text,
      (Condition.request expr).Grants
          (Condition.written (Condition.ofText expr)) ∧
        ∀ usage fault needed,
          (Condition.request expr).outcome usage =
            (.error fault, needed) →
          needed = usage) ∧
    ∀ expr : Text,
      (ArithExpr.request expr).Grants
          (ArithExpr.written (ArithExpr.ofText expr)) ∧
        ∀ usage fault needed,
          (ArithExpr.request expr).outcome usage =
            (.error fault, needed) →
          needed = usage := by
  intro after
  refine ⟨?_, ?_, ?_, ?_⟩
  · intro fault hFault
    rcases command.events_of_fault? draft.blocks draft.loops line
        hFault with ⟨undone, hUndone, hEvents⟩
    change draft.OnlyMarks line fault (draft.extend _)
    rw [hEvents]
    exact draft.onlyMarks_extend line fault hUndone
  · intro hNone hTest
    refine ⟨_, toList_diagnostics_extend draft _, ?_⟩
    intro d hd hError
    rcases List.mem_flatMap.mp hd with ⟨event, hEvent, hd⟩
    have hNoFail := command.no_fail_of_fault?_eq_none
      draft.blocks draft.loops line hNone hTest event hEvent
    cases event with
    | fail line fault => cases hNoFail
    | warn line message =>
        rw [List.mem_singleton.mp hd] at hError
        cases hError
    | _ => cases hd
  · intro expr
    have hGrants := Condition.grants_request expr
    exact ⟨hGrants, fun _ _ _ hFault => hGrants.usage_eq hFault⟩
  · intro expr
    have hGrants := ArithExpr.grants_request expr
    exact ⟨hGrants, fun _ _ _ hFault => hGrants.usage_eq hFault⟩

/-
  A branch inside of a loop over built items, and a test
  whose second operand is refused behind a first one that
  needs a helper.
-/
theorem Draft.refused_leaves_state_of_branch :
    let draft := (start "a.sh" "  ").addCommands
      [(1, ⟨"if x", .ifOpen "x"⟩),
       (2, ⟨"for i in a$y", .forOpen "i" (some "a$y")⟩)]
    let command : Command := ⟨"else", .elseBranch⟩
    let expr : Text := "! $a = $b-c"
    command.fault? draft.blocks = some (.unopened "else") ∧
    draft.OnlyMarks 3 (.unopened "else")
      (draft.addCommand 3 command) ∧
    Fault.of? (Condition.ofText expr) =
      some (.construct ("test operand \x60$b-c\x60 mixes text " ++
        "and variable references")) ∧
    ∀ usage, ∃ fault,
      (Condition.request expr).outcome usage =
        (.error fault, usage) := by
  intro draft command expr
  have hFault : command.fault? draft.blocks =
      some (.unopened "else") := by
    decide +kernel
  have hExpr : Fault.of? (Condition.ofText expr) =
      some (.construct ("test operand \x60$b-c\x60 mixes text " ++
        "and variable references")) := by
    decide +kernel
  rcases refused_leaves_state draft 3 command with
    ⟨hMarks, _, hTests, _⟩
  refine ⟨hFault, hMarks _ hFault, hExpr, ?_⟩
  intro usage
  cases hResult : (Condition.request expr).outcome usage with
  | mk result needed =>
      cases result with
      | error fault =>
          have hUsage :=
            (hTests expr).2 usage fault needed hResult
          exact ⟨fault, by rw [hUsage]⟩
      | ok text =>
          have hGrants := (hTests expr).1 usage
          cases hText : Condition.ofText expr with
          | ok e =>
              rw [hText] at hExpr
              cases hExpr
          | error fault =>
              rw [hResult, hText] at hGrants
              cases hGrants

end ShellToC
