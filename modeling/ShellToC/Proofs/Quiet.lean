import ShellToC.Proofs.BlockGrammar
import ShellToC.Proofs.FaultTexts
import ShellToC.Proofs.Growth

/-
  This file shows that only the keywords of blocks change
  the open blocks and report about them.  Every other
  statement writes its lines at the depth where it stands.

  Key definitions include:
    * `Diagnostic.ConcernsBlocks`
    * `Event.IsQuiet`
    * `Event.isSteady`
    * `Event.isPlain`

  Main declarations:
    * `Event.isQuiet_iff_reports`
    * `Fault.StaysInside.spares`
    * `Event.rowsAll_of_steady`
    * `Command.all_isPlain_events`
-/

namespace ShellToC

------------------------------------------------------------
-- Reports About Blocks
------------------------------------------------------------

/- Whether the fault is one of how blocks are opened and closed. -/
def Fault.concernsBlocks : Fault → Bool
  | .unopened _ => true
  | .unclosed _ => true
  | .construct _ => false
  | .operator _ => false

/-
  A report about how blocks are opened and closed: a
  warning, or the message of a block that is not open or is
  never closed.
-/
def Diagnostic.ConcernsBlocks
    (d : Diagnostic) : Prop :=
  d.level = .warn ∨
    d.level = .error ∧ ∃ keyword,
      d.message = (Fault.unopened keyword).message ∨
        d.message = (Fault.unclosed keyword).message

/- The message of a fault shows whether it concerns blocks. -/
theorem Fault.exists_message_eq_iff
    (fault : Fault) :
    (∃ keyword,
      fault.message = (Fault.unopened keyword).message ∨
        fault.message = (Fault.unclosed keyword).message) ↔
      fault.concernsBlocks = true := by
  cases fault with
  | unopened keyword =>
      exact ⟨fun _ => rfl, fun _ => ⟨keyword, Or.inl rfl⟩⟩
  | unclosed opener =>
      exact ⟨fun _ => rfl, fun _ => ⟨opener, Or.inr rfl⟩⟩
  | construct what =>
      simp [message, concernsBlocks, Text.ofString_eq]
  | operator op =>
      simp [message, concernsBlocks, Text.ofString_eq]

namespace Event

/- Whether the event reports something about blocks. -/
def concernsBlocks : Event → Bool
  | .fail _ fault => fault.concernsBlocks
  | .warn _ _ => true
  | _ => false

theorem exists_reports_iff
    (event : Event) :
    (∃ d ∈ event.reports, d.ConcernsBlocks) ↔
      event.concernsBlocks = true := by
  cases event with
  | fail line fault =>
      simpa [reports, concernsBlocks,
        Diagnostic.ConcernsBlocks] using
        fault.exists_message_eq_iff
  | warn line message =>
      simp [reports, concernsBlocks, Diagnostic.ConcernsBlocks]
  | _ => simp [reports, concernsBlocks]

/- Nothing is reported about blocks. -/
def IsQuiet
    (events : List Event) : Prop :=
  ∀ event ∈ events, event.concernsBlocks = false

@[simp] theorem isQuiet_nil : IsQuiet [] := by
  simp [IsQuiet]

@[simp] theorem isQuiet_cons
    {event : Event}
    {events : List Event} :
    IsQuiet (event :: events) ↔
      event.concernsBlocks = false ∧ IsQuiet events := by
  simp [IsQuiet]

@[simp] theorem isQuiet_append
    {a b : List Event} :
    IsQuiet (a ++ b) ↔ IsQuiet a ∧ IsQuiet b := by
  induction a with
  | nil => simp
  | cons event a ih => simp [ih, and_assoc]

/- Quiet events are those whose reports leave blocks alone. -/
theorem isQuiet_iff_reports
    (events : List Event) :
    IsQuiet events ↔
      ∀ d ∈ events.flatMap reports, ¬ d.ConcernsBlocks := by
  constructor
  · intro h d hd hConcerns
    rcases List.mem_flatMap.mp hd with ⟨event, hEvent, hd⟩
    have hTrue :=
      event.exists_reports_iff.mp ⟨d, hd, hConcerns⟩
    rw [h event hEvent] at hTrue
    contradiction
  · intro h event hEvent
    cases hConcerns : event.concernsBlocks with
    | false => rfl
    | true =>
        rcases event.exists_reports_iff.mpr hConcerns with
          ⟨d, hd, hReport⟩
        exact absurd hReport
          (h d (List.mem_flatMap.mpr ⟨event, hEvent, hd⟩))

end Event

------------------------------------------------------------
-- Faults Inside of Statements
------------------------------------------------------------

namespace Fault

/- Whatever is read, a fault in it does not concern blocks. -/
def Spares
    {α : Type}
    (result : Except Fault α) : Prop :=
  ∀ fault, result = .error fault →
    fault.concernsBlocks = false

/- A fault inside of a statement does not concern blocks. -/
theorem StaysInside.spares
    {α : Type}
    {text : Text}
    {result : Except Fault α}
    (h : StaysInside text result) :
    Spares result := by
  intro fault hFault
  rcases h fault hFault with ⟨what, rfl | rfl, -⟩
  · rfl
  · rfl

end Fault

------------------------------------------------------------
-- Steady and Plain Events
------------------------------------------------------------

namespace Event

/- Whether the event only writes, and says nothing about blocks. -/
def isSteady : Event → Bool
  | .write _ _ => true
  | .fail _ fault => !fault.concernsBlocks
  | _ => false

/- Whether the event is steady and opens no branch of a conditional. -/
def isPlain : Event → Bool
  | .write _ line => line != .openOnSuccess
  | event => event.isSteady

theorem all_isSteady_of_all_isPlain
    {events : List Event}
    (h : events.all isPlain = true) :
    events.all isSteady = true := by
  refine List.all_eq_true.mpr ?_
  intro event hEvent
  have hPlain := List.all_eq_true.mp h event hEvent
  cases event with
  | write extra line => rfl
  | _ => exact hPlain

theorem stack_of_isSteady
    {event : Event}
    (h : event.isSteady = true)
    (blocks : List Frame) :
    event.stack blocks = blocks := by
  cases event with
  | push frame => cases h
  | pop => cases h
  | _ => rfl

section Steady

variable {events : List Event}
variable (h : events.all isSteady = true)

include h

theorem isQuiet_of_steady :
    IsQuiet events := by
  intro event hEvent
  have hSteady := List.all_eq_true.mp h event hEvent
  cases event with
  | fail line fault =>
      simpa [isSteady, concernsBlocks] using hSteady
  | warn line message => cases hSteady
  | _ => rfl

theorem stackAll_of_steady
    (blocks : List Frame) :
    stackAll blocks events = blocks := by
  induction events with
  | nil => rfl
  | cons event events ih =>
      rw [List.all_cons, Bool.and_eq_true] at h
      change stackAll (event.stack blocks) events = blocks
      rw [stack_of_isSteady h.1]
      exact ih h.2

theorem loopsAll_of_steady :
    loopsAll events = 0 := by
  induction events with
  | nil => rfl
  | cons event events ih =>
      rw [List.all_cons, Bool.and_eq_true] at h
      have hEvent : event.loops = 0 := by
        cases event with
        | countLoop => cases h.1
        | _ => rfl
      simp [loopsAll, hEvent, ih h.2]

/- Steady events write at one depth. -/
theorem rowsAll_of_steady
    (file : Text)
    (blocks : List Frame) :
    rowsAll file blocks events =
      events.flatMap (rows file blocks.length) := by
  induction events with
  | nil => rfl
  | cons event events ih =>
      rw [List.all_cons, Bool.and_eq_true] at h
      rw [rowsAll, stack_of_isSteady h.1, ih h.2,
        List.flatMap_cons]

end Steady

------------------------------------------------------------
-- Plain Statements
------------------------------------------------------------

theorem all_isPlain_lines
    {extra : Nat}
    {ls : List Line}
    (h : ∀ line ∈ ls, line ≠ .openOnSuccess) :
    (lines extra ls).all isPlain = true := by
  refine List.all_eq_true.mpr ?_
  intro event hEvent
  rcases List.mem_map.mp hEvent with ⟨line, hLine, rfl⟩
  simp [isPlain, h line hLine]

theorem all_isPlain_withValuesInScope
    (values : List Value)
    {body : List Line}
    (h : ∀ line ∈ body, line ≠ .openOnSuccess) :
    (withValuesInScope values body).all isPlain = true := by
  have hLines : ∀ line ∈ values.flatMap Value.declarations ++
      body ++ values.flatMap Value.releases,
      line ≠ .openOnSuccess := by
    intro line hLine
    rcases List.mem_append.mp hLine with hLine | hLine
    · rcases List.mem_append.mp hLine with hLine | hLine
      · rcases List.mem_flatMap.mp hLine with ⟨value, _, hLine⟩
        cases value <;> simp_all [Value.declarations]
      · exact h line hLine
    · rcases List.mem_flatMap.mp hLine with ⟨value, _, hLine⟩
      cases value <;> simp_all [Value.releases]
  simp only [withValuesInScope, inScope, List.all_append,
    List.all_cons, all_isPlain_lines hLines]
  rfl

theorem all_isPlain_withValues
    (values : List Value)
    {body : List Line}
    (h : ∀ line ∈ body, line ≠ .openOnSuccess) :
    (withValues values body).all isPlain = true := by
  unfold withValues
  split
  · exact all_isPlain_lines h
  · exact all_isPlain_withValuesInScope values h

/- What is written for a value that was read is plain. -/
theorem all_isPlain_orFail_map
    (line : Nat)
    {α : Type}
    {result : Except Fault α}
    (hFault : Fault.Spares result)
    {write : α → List Event}
    (hWrite : ∀ value, (write value).all isPlain = true) :
    (orFail line (result.map write)).all isPlain = true := by
  cases result with
  | error fault =>
      simp [Except.map, orFail, isPlain, isSteady,
        hFault fault rfl]
  | ok value => exact hWrite value

theorem all_isPlain_test
    (line : Nat)
    (expr : Text) :
    (test line expr).all isPlain = true := by
  unfold test
  split
  · rfl
  · rename_i fault hFault
    have hSpares :=
      (Condition.staysInside_ofText expr).spares fault hFault
    simp [isPlain, isSteady, hSpares]

theorem all_isPlain_run
    (command : Text) :
    (run command).all isPlain = true :=
  all_isPlain_withValues _ (by simp)

theorem all_isPlain_condition
    (line : Nat)
    (text : Text) :
    (condition line text).all isPlain = true := by
  have hCheck (text : Text) :
      (check line text).all isPlain = true := by
    unfold check
    split
    · exact all_isPlain_test line _
    · split
      · rfl
      · split
        · rfl
        · exact all_isPlain_run text
  unfold condition
  split
  · rw [List.all_append, hCheck]
    rfl
  · exact hCheck text

theorem all_isPlain_print
    (newline : Bool)
    (template : Template) :
    (print newline template).all isPlain = true := by
  refine all_isPlain_lines ?_
  cases template with
  | literal text => cases newline <;> simp [printLine]
  | format text args => simp [printLine]

theorem all_isPlain_echo
    (line : Nat)
    (args : Text) :
    (orFail line (echo args)).all isPlain = true := by
  unfold echo
  split
  · rfl
  split
  · rfl
  split
  · rfl
  split
  · exact all_isPlain_print true _
  · split
    · exact all_isPlain_print false _
    · exact all_isPlain_print true _

theorem all_isPlain_informational
    (command text : Text) :
    (informational command text).all isPlain = true := by
  unfold informational
  split
  · rfl
  split
  · rfl
  split
  · rfl
  · exact all_isPlain_run text

------------------------------------------------------------
-- Opening and Closing Blocks
------------------------------------------------------------

theorem all_isSteady_condition
    (line : Nat)
    (text : Text) :
    (condition line text).all isSteady = true :=
  all_isSteady_of_all_isPlain (all_isPlain_condition line text)

/- The steady events before a block is opened, and those in it. -/
theorem rowsAll_push
    {a b : List Event}
    (ha : a.all isSteady = true)
    (hb : b.all isSteady = true)
    (file : Text)
    (frame : Frame)
    (blocks : List Frame) :
    rowsAll file blocks (a ++ .push frame :: b) =
      a.flatMap (rows file blocks.length) ++
        b.flatMap (rows file (blocks.length + 1)) := by
  rw [rowsAll_append, rowsAll_of_steady ha,
    stackAll_of_steady ha]
  congr 1
  exact rowsAll_of_steady hb file (frame :: blocks)

theorem stackAll_push
    {a b : List Event}
    (ha : a.all isSteady = true)
    (hb : b.all isSteady = true)
    (frame : Frame)
    (blocks : List Frame) :
    stackAll blocks (a ++ .push frame :: b) =
      frame :: blocks := by
  rw [stackAll_append, stackAll_of_steady ha]
  exact stackAll_of_steady hb (frame :: blocks)

theorem loopsAll_push
    {a b : List Event}
    (ha : a.all isSteady = true)
    (hb : b.all isSteady = true)
    (frame : Frame) :
    loopsAll (a ++ .push frame :: b) = 0 := by
  have hPush : loopsAll (.push frame :: b) = loopsAll b := by
    simp [loopsAll, loops]
  rw [loopsAll_append, hPush, loopsAll_of_steady ha,
    loopsAll_of_steady hb]

theorem all_isSteady_closeFrame
    (frame : Frame) :
    (closeFrame frame).all isSteady = true := by
  simp [closeFrame, lines, isSteady]

theorem stackAll_closeAs
    (line : Nat)
    (keyword : Text)
    (expected : BlockKind)
    (frame : Frame)
    (rest : List Frame) :
    stackAll (frame :: rest)
      (closeAs line keyword expected frame) = rest := by
  have hFrame := all_isSteady_closeFrame frame
  unfold closeAs
  split
  · exact stackAll_of_steady hFrame rest
  · exact stackAll_of_steady hFrame rest

end Event

------------------------------------------------------------
-- Statements
------------------------------------------------------------

namespace Command

/- A statement that is no keyword of blocks writes plainly. -/
theorem all_isPlain_events
    {command : Command}
    (hPlain : command.form.blockRole = .plain)
    (blocks : List Frame)
    (loops line : Nat) :
    (command.events blocks loops line).all
      Event.isPlain = true := by
  rcases command with ⟨text, form⟩
  cases form with
  | comment => rfl
  | bodyOpen => rfl
  | pipeline stages =>
      exact Event.all_isPlain_withValuesInScope _ (by simp)
  | echo args => exact Event.all_isPlain_echo line _
  | arithAssign name expr =>
      exact Event.all_isPlain_orFail_map line
        (ArithExpr.staysInside_ofText expr).spares
        fun _ => Event.all_isPlain_lines (by simp)
  | captureAssign name body =>
      exact Event.all_isPlain_withValuesInScope _ (by simp)
  | arithPrint expr =>
      exact Event.all_isPlain_orFail_map line
        (ArithExpr.staysInside_ofText expr).spares
        fun _ => Event.all_isPlain_lines (by simp)
  | test expr => exact Event.all_isPlain_test line expr
  | changeDir dir =>
      exact Event.all_isPlain_orFail_map line
        (Event.staysInside_directory dir).spares
        fun _ => Event.all_isPlain_withValues _ (by simp)
  | exit code =>
      exact Event.all_isPlain_orFail_map line
        (Event.staysInside_exitCode code).spares fun _ => rfl
  | background body =>
      exact Event.all_isPlain_withValues _ (by simp)
  | assign name value =>
      simp only [events, Event.assign, List.all_append,
        Event.all_isPlain_withValues _
          (show ∀ line ∈ [Line.assign name _],
            line ≠ .openOnSuccess by simp)]
      rfl
  | informational name args =>
      exact Event.all_isPlain_informational name text
  | varPrint => exact Event.all_isPlain_print true _
  | unsupported => rfl
  | _ => cases hPlain

/- What such a statement writes does not depend on the blocks. -/
theorem events_eq_of_plain
    {command : Command}
    (hPlain : command.form.blockRole = .plain)
    (blocks : List Frame)
    (loops line : Nat) :
    command.events blocks loops line =
      command.events [] 0 line := by
  rcases command with ⟨text, form⟩
  cases form with
  | elifBranch cond => cases hPlain
  | elseBranch => cases hPlain
  | ifClose => cases hPlain
  | forOpen var items => cases hPlain
  | loopClose => cases hPlain
  | _ => rfl

end Command

end ShellToC
