import ShellToC.Proofs.Directives
import ShellToC.Proofs.Growth

/-
  This file follows formats from the templates in which they
  arise to the lines of a draft.

  A call is sound if its values fit the directives of its
  format one by one.  Templates give sound calls, statements
  write no others, and so a draft has no others.

  Key definitions include:
    * `FormatCall.IsSound`
    * `Line.IsSound`
    * `Event.IsSound`

  Main declarations:
    * `FormatCall.isSound_ofTemplate`
    * `Command.allSound_events`
    * `Draft.isSound_ofScript`
-/

namespace ShellToC

------------------------------------------------------------
-- Calls
------------------------------------------------------------

/- The conversion that fits a value. -/
def FormatArg.conversion : FormatArg → Conversion
  | .string _ => .string
  | .status => .int
  | .backgroundPid => .int

namespace FormatCall

/-
  The values of the call fit the directives of its format,
  from left to right, and there are some.  None of them is
  stored in a temporary variable.
-/
structure IsSound
    (call : FormatCall) : Prop where
  conversions_eq :
    (FormatPart.ofFormat? call.format).map
        (·.filterMap FormatPart.conversion?) =
      some (call.args.map FormatArg.conversion)
  args_ne_nil : call.args ≠ []
  args_ne_temporary : ∀ temp,
    .string (.temporary temp) ∉ call.args

/- The call that fills in a template is sound. -/
theorem isSound_ofTemplate
    {text : Text}
    {args : List Argument}
    {atoms : List Atom}
    (h : (Template.format text args).Denotes atoms) :
    (ofTemplate text args).IsSound := by
  rcases h with ⟨hFormat, rfl, hSome⟩
  refine ⟨?_, by simpa [ofTemplate] using hSome, ?_⟩
  · have hConversion (arg : Argument) :
        (FormatArg.ofArgument arg).conversion =
          arg.conversion := by
      cases arg <;> rfl
    rw [ofTemplate, hFormat, Option.map_some,
      Atom.filterMap_conversion?_part, List.map_map]
    simp [Function.comp_def, hConversion]
  · intro temp hMem
    rcases List.mem_map.mp hMem with ⟨arg, -, hArg⟩
    cases arg <;> cases hArg

/- A text is copied as a value, and not as a format. -/
theorem isSound_copy
    (text : Text) :
    (copy text).IsSound := by
  refine ⟨?_, by simp [copy], by simp [copy]⟩
  rw [copy, Text.ofString_ofList]
  rfl

end FormatCall

namespace Template

/- A line feed behind a format denotes itself. -/
theorem Denotes.format_lineFeed
    {text : Text}
    {args : List Argument}
    {atoms : List Atom}
    (h : (format text args).Denotes atoms) :
    (format (text ++ ['\n']) args).Denotes
      (atoms ++ [.char '\n']) := by
  rcases h with ⟨hFormat, rfl, hSome⟩
  refine ⟨?_, ?_, hSome⟩
  · rw [FormatPart.ofFormat?_append hFormat]
    simp [FormatPart.ofFormat?, Atom.part]
  · simp [Atom.value?]

theorem denotes_ofWord
    (word : Text) :
    (ofWord word).Denotes
      (Reference.atoms .fill (Word.unquote word)) :=
  denotes_resolve .fill _

/- Joined words denote what each of them denotes. -/
theorem denotes_join_ofWord
    (separator : Text)
    (words : List Text) :
    (join separator (words.map ofWord)).Denotes
      (List.intercalate (separator.map .char)
        (words.map fun word =>
          Reference.atoms .fill (Word.unquote word))) := by
  let parts := words.map fun word =>
    (ofWord word, Reference.atoms .fill (Word.unquote word))
  have hParts : ∀ part ∈ parts, part.1.Denotes part.2 := by
    intro part hPart
    rcases List.mem_map.mp hPart with ⟨word, -, rfl⟩
    exact denotes_ofWord word
  have hJoin := denotes_join separator hParts
  simpa [parts, Function.comp_def] using hJoin

theorem denotes_ofCommand
    (command : Text) :
    (ofCommand command).Denotes
      (Reference.atoms .leave (prepare command)) :=
  denotes_resolve .leave _

theorem exists_denotes_ofStatement
    (text : Text) :
    ∃ atoms, (ofStatement text).Denotes atoms := by
  rw [ofStatement]
  split
  · exact ⟨_, rfl⟩
  split
  · exact ⟨_, denotes_resolve .fill _⟩
  · exact ⟨_, denotes_resolve .fill _⟩

end Template

------------------------------------------------------------
-- Lines and Events
------------------------------------------------------------

namespace Line

/- The calls of a line that take a format. -/
def formatCalls : Line → List FormatCall
  | .printFormat call => [call]
  | .declareBuilt _ call => [call]
  | .declareBuiltItems _ items => items
  | _ => []

/- The calls of the line are sound. -/
def IsSound
    (line : Line) : Prop :=
  ∀ call ∈ line.formatCalls, call.IsSound

/- A line without calls that take a format is sound. -/
theorem isSound_of_formatCalls
    {line : Line}
    (h : line.formatCalls = []) :
    line.IsSound := by
  simp [IsSound, h]

end Line

/- The lines at the end of a block are sound. -/
def Frame.IsSound
    (frame : Frame) : Prop :=
  ∀ line ∈ frame.epilogue, line.IsSound

namespace Event

/- The lines that an event writes or leaves for later are sound. -/
def IsSound : Event → Prop
  | .write _ line => line.IsSound
  | .push frame => frame.IsSound
  | _ => True

/- All of the events are sound. -/
def AllSound
    (events : List Event) : Prop :=
  ∀ event ∈ events, event.IsSound

@[simp] theorem allSound_nil : AllSound [] := by
  simp [AllSound]

@[simp] theorem allSound_cons
    (event : Event)
    (events : List Event) :
    AllSound (event :: events) ↔
      event.IsSound ∧ AllSound events :=
  List.forall_mem_cons

@[simp] theorem allSound_append
    (a b : List Event) :
    AllSound (a ++ b) ↔ AllSound a ∧ AllSound b :=
  List.forall_mem_append

/- The open blocks behind a sound event. -/
theorem IsSound.stack
    {event : Event}
    (h : event.IsSound)
    {blocks : List Frame}
    (hBlocks : ∀ frame ∈ blocks, frame.IsSound) :
    ∀ frame ∈ event.stack blocks, frame.IsSound := by
  cases event with
  | push frame => exact List.forall_mem_cons.mpr ⟨h, hBlocks⟩
  | pop =>
      exact fun frame hFrame =>
        hBlocks frame (List.mem_of_mem_tail hFrame)
  | _ => exact hBlocks

theorem AllSound.stackAll
    {events : List Event}
    (h : AllSound events)
    {blocks : List Frame}
    (hBlocks : ∀ frame ∈ blocks, frame.IsSound) :
    ∀ frame ∈ stackAll blocks events, frame.IsSound := by
  induction events generalizing blocks with
  | nil => exact hBlocks
  | cons event events ih =>
      rw [allSound_cons] at h
      exact ih h.2 (h.1.stack hBlocks)

/- The rows of sound events have sound lines. -/
theorem AllSound.rowsAll
    {events : List Event}
    (h : AllSound events)
    (file : Text)
    (blocks : List Frame) :
    ∀ row ∈ rowsAll file blocks events, row.line.IsSound := by
  induction events generalizing blocks with
  | nil => simp [Event.rowsAll]
  | cons event events ih =>
      rw [allSound_cons] at h
      refine List.forall_mem_append.mpr ⟨?_, ih h.2 _⟩
      cases event with
      | write extra line =>
          intro row hRow
          rw [List.mem_singleton.mp hRow]
          exact h.1
      | fail line fault =>
          simp [rows, Line.IsSound, Line.formatCalls]
      | _ => simp [rows]

end Event

/- The value is built by a sound call, if it is built. -/
def Value.IsSound
    (value : Value) : Prop :=
  ∀ line ∈ value.declarations, line.IsSound

theorem Value.isSound_ofTemplate
    {temp : Temporary}
    {template : Template}
    {atoms : List Atom}
    (h : template.Denotes atoms) :
    (ofTemplate temp template).IsSound := by
  cases template with
  | literal text => simp [ofTemplate, IsSound, declarations]
  | format text args =>
      rw [ofTemplate]
      split
      · simp [IsSound, declarations]
      · simpa [IsSound, declarations, Line.IsSound,
          Line.formatCalls] using FormatCall.isSound_ofTemplate h

namespace Event

------------------------------------------------------------
-- Scopes
------------------------------------------------------------

theorem allSound_lines
    (extra : Nat)
    {ls : List Line}
    (h : ∀ line ∈ ls, line.IsSound) :
    AllSound (lines extra ls) := by
  intro event hEvent
  rcases List.mem_map.mp hEvent with ⟨line, hLine, rfl⟩
  exact h line hLine

theorem allSound_inScope
    {ls : List Line}
    (h : ∀ line ∈ ls, line.IsSound) :
    AllSound (inScope ls) := by
  rw [inScope, List.cons_append, allSound_cons, allSound_append,
    allSound_cons]
  exact ⟨Line.isSound_of_formatCalls rfl, allSound_lines 1 h,
    Line.isSound_of_formatCalls rfl, allSound_nil⟩

/- Values are declared and freed by sound lines. -/
theorem isSound_declarations_releases
    {values : List Value}
    (hValues : ∀ value ∈ values, value.IsSound)
    {body : List Line}
    (hBody : ∀ line ∈ body, line.IsSound) :
    ∀ line ∈ values.flatMap Value.declarations ++ body ++
      values.flatMap Value.releases, line.IsSound := by
  rw [List.forall_mem_append, List.forall_mem_append]
  refine ⟨⟨?_, hBody⟩, ?_⟩
  · intro line hLine
    rcases List.mem_flatMap.mp hLine with ⟨value, hValue, hLine⟩
    exact hValues value hValue line hLine
  · intro line hLine
    rcases List.mem_flatMap.mp hLine with ⟨value, -, hLine⟩
    cases value with
    | borrowed e => cases hLine
    | built temp call =>
        rw [List.mem_singleton.mp hLine]
        exact Line.isSound_of_formatCalls rfl

theorem allSound_withValuesInScope
    {values : List Value}
    (hValues : ∀ value ∈ values, value.IsSound)
    {body : List Line}
    (hBody : ∀ line ∈ body, line.IsSound) :
    AllSound (withValuesInScope values body) :=
  allSound_inScope (isSound_declarations_releases hValues hBody)

theorem allSound_withValues
    {values : List Value}
    (hValues : ∀ value ∈ values, value.IsSound)
    {body : List Line}
    (hBody : ∀ line ∈ body, line.IsSound) :
    AllSound (withValues values body) := by
  rw [withValues]
  split
  · exact allSound_lines 0 hBody
  · exact allSound_withValuesInScope hValues hBody

theorem allSound_run
    (command : Text) :
    AllSound (run command) := by
  refine allSound_withValues ?_ ?_
  · simpa using Value.isSound_ofTemplate
      (Template.denotes_ofCommand command)
  · simpa using Line.isSound_of_formatCalls rfl

------------------------------------------------------------
-- Blocks
------------------------------------------------------------

theorem allSound_test
    (line : Nat)
    (expr : Text) :
    AllSound (test line expr) := by
  rw [test]
  split <;> simp [IsSound, Line.IsSound, Line.formatCalls]

theorem allSound_condition
    (line : Nat)
    (text : Text) :
    AllSound (condition line text) := by
  have hCheck (text : Text) : AllSound (check line text) := by
    rw [check]
    split
    · exact allSound_test line _
    split
    · simp [IsSound, Line.IsSound, Line.formatCalls]
    split
    · simp [IsSound, Line.IsSound, Line.formatCalls]
    · exact allSound_run text
  rw [condition]
  split
  · rw [allSound_append]
    exact ⟨hCheck _,
      by simp [IsSound, Line.IsSound, Line.formatCalls]⟩
  · exact hCheck text

theorem allSound_openBranch
    (line : Nat)
    (cond : Text)
    {frame : Frame}
    (hFrame : frame.IsSound) :
    AllSound (openBranch line cond frame) := by
  rw [openBranch, allSound_append]
  refine ⟨allSound_condition line cond, ?_⟩
  simpa [IsSound, Line.IsSound, Line.formatCalls] using hFrame

theorem allSound_continueElse
    (line : Nat)
    (keyword : Text)
    {blocks : List Frame}
    (hBlocks : ∀ frame ∈ blocks, frame.IsSound)
    {next : List Event}
    (hNext : AllSound next) :
    AllSound (continueElse line keyword blocks next) := by
  cases blocks with
  | nil => simp [continueElse, IsSound]
  | cons frame rest =>
      have hFrame : frame.IsSound := hBlocks frame (by simp)
      rw [continueElse]
      split
      · simp only [allSound_append, allSound_cons]
        exact ⟨⟨trivial, Line.isSound_of_formatCalls rfl, hFrame,
          allSound_nil⟩, hNext⟩
      · simp only [allSound_cons]
        exact ⟨trivial, hFrame, trivial, allSound_nil⟩

theorem allSound_openWhile
    (line : Nat)
    (cond : Text) :
    AllSound (openWhile line cond) := by
  rw [openWhile, allSound_append, allSound_append]
  refine ⟨⟨?_, allSound_condition line cond⟩, ?_⟩
  · simp [IsSound, Line.IsSound, Line.formatCalls, Frame.IsSound]
  · simp [IsSound, Line.IsSound, Line.formatCalls]

/- The items of a loop are copied, or filled into formats. -/
theorem isSound_declareItems
    (loop : Nat)
    (words : List Text) :
    (declareItems loop (words.map Template.ofWord)).IsSound := by
  rw [declareItems]
  split
  · exact Line.isSound_of_formatCalls rfl
  · intro call hCall
    simp only [Line.formatCalls, List.mem_map] at hCall
    rcases hCall with ⟨template, ⟨word, -, rfl⟩, rfl⟩
    have hWord := Template.denotes_ofWord word
    cases hTemplate : Template.ofWord word with
    | literal text => exact FormatCall.isSound_copy text
    | format text args =>
        rw [hTemplate] at hWord
        exact FormatCall.isSound_ofTemplate hWord

theorem allSound_openFor
    (line loops : Nat)
    (var : Text)
    (items : Option Text) :
    AllSound (openFor line loops var items) := by
  rw [openFor]
  split
  · simp [IsSound, Line.IsSound, Line.formatCalls, forFrame,
      Frame.IsSound]
  · have hFrame (templates : List Template) :
        (forFrame line
          (freeItems (loops + 1) templates)).IsSound := by
      intro freed hFreed
      simp only [forFrame, freeItems] at hFreed
      split at hFreed
      · cases hFreed
      · rcases List.mem_map.mp hFreed with ⟨index, -, rfl⟩
        exact Line.isSound_of_formatCalls rfl
    simp only [openForItems, allSound_cons]
    exact ⟨trivial, isSound_declareItems _ _,
      Line.isSound_of_formatCalls rfl, hFrame _,
      Line.isSound_of_formatCalls rfl, allSound_nil⟩

theorem allSound_closeFrame
    {frame : Frame}
    (h : frame.IsSound) :
    AllSound (closeFrame frame) := by
  rw [closeFrame, allSound_cons]
  exact ⟨Line.isSound_of_formatCalls rfl, allSound_lines 0 h⟩

theorem allSound_closeAs
    (line : Nat)
    (keyword : Text)
    (expected : BlockKind)
    {frame : Frame}
    (h : frame.IsSound) :
    AllSound (closeAs line keyword expected frame) := by
  have hClose := allSound_closeFrame h
  rw [closeAs]
  split <;> simp [IsSound, mismatch, hClose]

theorem allSound_closeChain
    {blocks : List Frame}
    (hBlocks : ∀ frame ∈ blocks, frame.IsSound) :
    AllSound (closeChain blocks) := by
  induction blocks with
  | nil => exact allSound_nil
  | cons frame rest ih =>
      rw [List.forall_mem_cons] at hBlocks
      have hClose := allSound_closeFrame hBlocks.1
      have hRest := ih hBlocks.2
      rw [closeChain]
      split <;> simp [IsSound, hClose, hRest]

theorem allSound_closeIf
    (line : Nat)
    {blocks : List Frame}
    (hBlocks : ∀ frame ∈ blocks, frame.IsSound) :
    AllSound (closeIf line blocks) := by
  cases blocks with
  | nil => simp [closeIf, IsSound]
  | cons frame rest =>
      rw [List.forall_mem_cons] at hBlocks
      have hClose := allSound_closeAs line "fi" .conditional
        hBlocks.1
      have hRest := allSound_closeChain hBlocks.2
      rw [closeIf]
      split <;> simp [hClose, hRest]

theorem allSound_closeLoop
    (line : Nat)
    {blocks : List Frame}
    (hBlocks : ∀ frame ∈ blocks, frame.IsSound) :
    AllSound (closeLoop line blocks) := by
  cases blocks with
  | nil => simp [closeLoop, IsSound]
  | cons frame rest =>
      exact allSound_closeAs line "done" .loop
        (hBlocks frame (by simp))

theorem allSound_closeAll
    {blocks : List Frame}
    (hBlocks : ∀ frame ∈ blocks, frame.IsSound) :
    AllSound (closeAll blocks) := by
  induction blocks with
  | nil => exact allSound_nil
  | cons frame rest ih =>
      rw [List.forall_mem_cons] at hBlocks
      have hClose := allSound_closeFrame hBlocks.1
      have hRest := ih hBlocks.2
      rw [closeAll] at hRest ⊢
      rw [List.flatMap_cons, allSound_append]
      refine ⟨?_, hRest⟩
      split <;> simp [IsSound, hClose]

------------------------------------------------------------
-- Statements
------------------------------------------------------------

theorem allSound_orFail
    (line : Nat)
    {result : Except Fault (List Event)}
    (h : ∀ events, result = .ok events → AllSound events) :
    AllSound (orFail line result) := by
  cases result with
  | ok events => exact h events rfl
  | error fault => simp [orFail, IsSound]

/- A template that is printed is filled in, or has no values. -/
theorem allSound_print
    (newline : Bool)
    {template : Template}
    {atoms : List Atom}
    (h : template.Denotes atoms) :
    AllSound (print newline template) := by
  have hPrint : (printLine newline template).IsSound := by
    cases template with
    | literal text =>
        cases newline <;> exact Line.isSound_of_formatCalls rfl
    | format text args =>
        simp only [printLine, Line.IsSound, Line.formatCalls,
          List.mem_singleton, forall_eq]
        cases newline with
        | false => exact FormatCall.isSound_ofTemplate h
        | true =>
            exact FormatCall.isSound_ofTemplate h.format_lineFeed
  refine allSound_lines 0 ?_
  simpa using ⟨hPrint, Line.isSound_of_formatCalls rfl⟩

theorem allSound_echo
    {args : Text}
    {events : List Event}
    (h : echo args = .ok events) :
    AllSound events := by
  have hWords (newline : Bool) (words : List Text) :
      AllSound (printWords newline words) :=
    allSound_print newline (Template.denotes_join_ofWord " " words)
  unfold echo at h
  split at h
  · contradiction
  split at h
  · contradiction
  split at h
  · contradiction
  split at h
  · cases h
    exact hWords true []
  · split at h
    · cases h
      exact hWords false _
    · cases h
      exact hWords true _

/- The values of arithmetic go to lines without formats of their own. -/
theorem allSound_ofArith
    {expr : Text}
    (line : ArithExpr → Line)
    (hLine : ∀ value, (line value).formatCalls = [])
    {events : List Event}
    (h : (ArithExpr.ofText expr).map
      (fun value => lines 0 [line value, .succeed]) =
        .ok events) :
    AllSound events := by
  cases hValue : ArithExpr.ofText expr with
  | error fault => simp [hValue, Except.map] at h
  | ok value =>
      simp only [hValue, Except.map, Except.ok.injEq] at h
      subst h
      refine allSound_lines 0 ?_
      simpa using ⟨Line.isSound_of_formatCalls (hLine value),
        Line.isSound_of_formatCalls rfl⟩

theorem allSound_captureAssign
    (name command : Text) :
    AllSound (captureAssign name command) := by
  refine allSound_withValuesInScope ?_ ?_
  · simpa using Value.isSound_ofTemplate
      (Template.denotes_ofCommand command)
  · simp [Line.IsSound, Line.formatCalls]

theorem allSound_assign
    (name word : Text) :
    AllSound (assign name word) := by
  rw [assign, allSound_append]
  refine ⟨allSound_withValues ?_ ?_, ?_⟩
  · simpa using Value.isSound_ofTemplate
      (Template.denotes_ofWord word)
  · simp [Line.IsSound, Line.formatCalls]
  · simp [IsSound, Line.IsSound, Line.formatCalls]

theorem allSound_pipeline
    (stages : List Text) :
    AllSound (pipeline stages) := by
  refine allSound_withValuesInScope ?_ ?_
  · intro value hValue
    rcases List.mem_mapIdx.mp hValue with ⟨index, hIndex, rfl⟩
    exact Value.isSound_ofTemplate (Template.denotes_ofCommand _)
  · simp [Line.IsSound, Line.formatCalls]

theorem allSound_background
    (command : Text) :
    AllSound (background command) := by
  refine allSound_withValues ?_ ?_
  · simpa using Value.isSound_ofTemplate
      (Template.denotes_ofCommand command)
  · simp [Line.IsSound, Line.formatCalls]

theorem isSound_of_directory
    {dir : Option Text}
    {value : Value}
    (h : directory dir = .ok value) :
    value.IsSound := by
  unfold directory at h
  split at h
  · cases h
    simp [Value.IsSound, Value.declarations]
  split at h
  · cases h
    exact Value.isSound_ofTemplate (Template.denotes_ofWord _)
  · contradiction

theorem allSound_changeDir
    {dir : Option Text}
    {events : List Event}
    (h : changeDir dir = .ok events) :
    AllSound events := by
  unfold changeDir at h
  cases hDir : directory dir with
  | error fault => simp [hDir, Except.map] at h
  | ok value =>
      simp only [hDir, Except.map, Except.ok.injEq] at h
      subst h
      refine allSound_withValues ?_ ?_
      · simpa using isSound_of_directory hDir
      · simp [Line.IsSound, Line.formatCalls]

theorem allSound_exit
    {code : Option Text}
    {events : List Event}
    (h : exit code = .ok events) :
    AllSound events := by
  unfold exit at h
  cases hCode : exitCode code with
  | error fault => simp [hCode, Except.map] at h
  | ok e =>
      simp only [hCode, Except.map, Except.ok.injEq] at h
      subst h
      simp [IsSound, Line.IsSound, Line.formatCalls]

theorem allSound_informational
    (command text : Text) :
    AllSound (informational command text) := by
  rw [informational]
  split
  · simp [IsSound, Line.IsSound, Line.formatCalls]
  split
  · simp [IsSound, Line.IsSound, Line.formatCalls]
  split
  · simp [printWorkingDir, IsSound, Line.IsSound,
      Line.formatCalls]
  · exact allSound_run text

end Event

/- Whatever blocks are open, a statement writes sound lines. -/
theorem Command.allSound_events
    {blocks : List Frame}
    (hBlocks : ∀ frame ∈ blocks, frame.IsSound)
    (loops line : Nat)
    (command : Command) :
    Event.AllSound (command.events blocks loops line) := by
  rcases command with ⟨text, form⟩
  cases form with
  | comment | bodyOpen => exact Event.allSound_nil
  | pipeline stages => exact Event.allSound_pipeline stages
  | echo args =>
      exact Event.allSound_orFail line
        fun _ h => Event.allSound_echo h
  | arithAssign name expr =>
      exact Event.allSound_orFail line fun _ h =>
        Event.allSound_ofArith (.assignInt name) (fun _ => rfl) h
  | arithPrint expr =>
      exact Event.allSound_orFail line fun _ h =>
        Event.allSound_ofArith .printInt (fun _ => rfl) h
  | captureAssign name body =>
      exact Event.allSound_captureAssign name body
  | test expr => exact Event.allSound_test line expr
  | changeDir dir =>
      exact Event.allSound_orFail line
        fun _ h => Event.allSound_changeDir h
  | ifOpen cond =>
      exact Event.allSound_openBranch line cond
        (by simp [Frame.IsSound])
  | elifBranch cond =>
      exact Event.allSound_continueElse line "elif" hBlocks
        (Event.allSound_openBranch line cond
          (by simp [Frame.IsSound]))
  | whileOpen cond => exact Event.allSound_openWhile line cond
  | elseBranch =>
      exact Event.allSound_continueElse line "else" hBlocks
        Event.allSound_nil
  | ifClose => exact Event.allSound_closeIf line hBlocks
  | forOpen var items =>
      exact Event.allSound_openFor line loops var items
  | loopClose => exact Event.allSound_closeLoop line hBlocks
  | exit code =>
      exact Event.allSound_orFail line
        fun _ h => Event.allSound_exit h
  | background body => exact Event.allSound_background body
  | assign name value => exact Event.allSound_assign name value
  | informational name args =>
      exact Event.allSound_informational name text
  | varPrint =>
      rcases Template.exists_denotes_ofStatement text with
        ⟨atoms, hAtoms⟩
      exact Event.allSound_print true hAtoms
  | unsupported =>
      exact (Event.allSound_cons _ _).mpr
        ⟨trivial, Event.allSound_nil⟩

------------------------------------------------------------
-- Drafts
------------------------------------------------------------

/- So do statements one after the other. -/
theorem Command.allSound_eventsAll
    {blocks : List Frame}
    (hBlocks : ∀ frame ∈ blocks, frame.IsSound)
    (loops : Nat)
    (commands : List (Nat × Command)) :
    Event.AllSound (eventsAll blocks loops commands) := by
  induction commands generalizing blocks loops with
  | nil => exact Event.allSound_nil
  | cons command commands ih =>
      have hFirst := allSound_events hBlocks loops command.1
        command.2
      rw [eventsAll, Event.allSound_append]
      exact ⟨hFirst, ih (hFirst.stackAll hBlocks) _⟩

/- Every line of the draft of a script is sound. -/
theorem Draft.isSound_ofScript
    (file unit script : Text) :
    ∀ row ∈ (ofScript file unit script).rows.toList,
      row.line.IsSound := by
  have hEvents := Command.allSound_eventsAll
    (List.forall_mem_nil _) 0 (Command.ofScript script)
  have hToEnd : Event.AllSound (Command.eventsToEnd [] 0
      (Command.ofScript script)) := by
    rw [Command.eventsToEnd, Event.allSound_append]
    exact ⟨hEvents, Event.allSound_closeAll
      (hEvents.stackAll (List.forall_mem_nil _))⟩
  rcases ofScript_eq file unit script with ⟨log, hDraft⟩
  rw [hDraft, finish_addCommands_eq_extend]
  simpa [start] using hToEnd.rowsAll file []

end ShellToC
