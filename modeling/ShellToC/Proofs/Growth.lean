import ShellToC.Program

/-
  This file says what events make of a draft, once and for
  all: the blocks, rows, helpers and reports that each event
  leaves behind.  Only the log is left out.

  Main declarations:
    * `Draft.apply_eq`
    * `Draft.extend_eq`
    * `Draft.addCommands`
    * `Draft.addCommands_eq_extend`
    * `Draft.ofScript_eq`
-/

namespace ShellToC

------------------------------------------------------------
-- Single Events
------------------------------------------------------------

namespace Event

/- The open blocks after an event. -/
def stack
    (blocks : List Frame) : Event → List Frame
  | .push frame => frame :: blocks
  | .pop => blocks.tail
  | _ => blocks

/- The rows that an event writes inside of so many blocks. -/
def rows
    (file : Text)
    (depth : Nat) : Event → List Row
  | .write extra line => [⟨depth + 1 + extra, line⟩]
  | .fail line fault =>
      [⟨depth + 1, .marker file line fault.message⟩]
  | _ => []

/- The helpers that an event needs. -/
def needs : Event → List Helper
  | .write _ line => line.needs
  | _ => []

/- What an event reports. -/
def reports : Event → List Diagnostic
  | .fail line fault => [⟨.error, line, fault.message⟩]
  | .warn line message => [⟨.warn, line, message⟩]
  | _ => []

/- The loop numbers that an event takes. -/
def loops : Event → Nat
  | .countLoop => 1
  | _ => 0

------------------------------------------------------------
-- Sequences of Events
------------------------------------------------------------

/- The open blocks after events. -/
def stackAll
    (blocks : List Frame)
    (events : List Event) : List Frame :=
  events.foldl stack blocks

/- The rows that events write. -/
def rowsAll
    (file : Text)
    (blocks : List Frame) : List Event → List Row
  | [] => []
  | event :: events =>
      event.rows file blocks.length ++
        rowsAll file (event.stack blocks) events

/- The loop numbers that events take. -/
def loopsAll : List Event → Nat
  | [] => 0
  | event :: events => event.loops + loopsAll events

theorem stackAll_append
    (blocks : List Frame)
    (a b : List Event) :
    stackAll blocks (a ++ b) =
      stackAll (stackAll blocks a) b :=
  List.foldl_append

theorem rowsAll_append
    (file : Text)
    (blocks : List Frame)
    (a b : List Event) :
    rowsAll file blocks (a ++ b) =
      rowsAll file blocks a ++
        rowsAll file (stackAll blocks a) b := by
  induction a generalizing blocks with
  | nil => rfl
  | cons event a ih =>
      simp [rowsAll, stackAll, ih]

theorem loopsAll_append
    (a b : List Event) :
    loopsAll (a ++ b) = loopsAll a + loopsAll b := by
  induction a with
  | nil => simp [loopsAll]
  | cons event a ih => simp [loopsAll, ih, Nat.add_assoc]

end Event

namespace Draft

------------------------------------------------------------
-- Growth
------------------------------------------------------------

/- Needing helpers changes nothing but the usage and the log. -/
theorem foldl_require_eq
    (draft : Draft)
    (helpers : List Helper) :
    helpers.foldl require draft =
      { draft with
        usage := draft.usage.requireAll helpers
        log := (helpers.foldl require draft).log } := by
  induction helpers generalizing draft with
  | nil => rfl
  | cons helper helpers ih => exact ih (draft.require helper)

/- All that writing a line does, except for the log. -/
theorem write_eq
    (draft : Draft)
    (extra : Nat)
    (line : Line) :
    draft.write extra line =
      { draft with
        usage := draft.usage.requireAll line.needs
        rows := draft.rows.push ⟨draft.depth + 1 + extra, line⟩
        log := (draft.write extra line).log } := by
  have hNeeds := foldl_require_eq draft line.needs
  simp only [write]
  rw [hNeeds]
  rfl

/- All that an event does to a draft, except for the log. -/
theorem apply_eq
    (draft : Draft)
    (event : Event) :
    draft.apply event =
      { draft with
        blocks := event.stack draft.blocks
        loops := draft.loops + event.loops
        usage := draft.usage.requireAll event.needs
        rows := draft.rows ++ event.rows draft.file draft.depth
        diagnostics := draft.diagnostics ++ event.reports
        log := (draft.apply event).log } := by
  cases event with
  | write extra line =>
      simp only [apply]
      rw [write_eq]
      simp [Event.stack, Event.loops, Event.needs,
        Event.rows, Event.reports]
  | fail line fault =>
      simp only [apply, fail, report]
      rw [write_eq]
      simp [Event.stack, Event.loops, Event.needs,
        Event.rows, Event.reports, Line.needs,
        Usage.requireAll]
  | warn line message =>
      simp [apply, report, Event.stack, Event.loops,
        Event.needs, Event.rows, Event.reports,
        Usage.requireAll]
  | push frame =>
      simp [apply, push, Event.stack, Event.loops,
        Event.needs, Event.rows, Event.reports,
        Usage.requireAll]
  | pop =>
      rcases draft with ⟨file, unit, blocks⟩
      cases blocks with
      | nil =>
          simp [apply, pop?, Event.stack, Event.loops,
            Event.needs, Event.rows, Event.reports,
            Usage.requireAll]
      | cons frame rest =>
          simp [apply, pop?, Event.stack, Event.loops,
            Event.needs, Event.rows, Event.reports,
            Usage.requireAll]
  | countLoop =>
      simp [apply, Event.stack, Event.loops, Event.needs,
        Event.rows, Event.reports, Usage.requireAll]

/- All that events do to a draft, except for the log. -/
theorem extend_eq
    (draft : Draft)
    (events : List Event) :
    draft.extend events =
      { draft with
        blocks := Event.stackAll draft.blocks events
        loops := draft.loops + Event.loopsAll events
        usage := draft.usage.requireAll
          (events.flatMap Event.needs)
        rows := draft.rows ++
          Event.rowsAll draft.file draft.blocks events
        diagnostics := draft.diagnostics ++
          events.flatMap Event.reports
        log := (draft.extend events).log } := by
  induction events generalizing draft with
  | nil =>
      simp [extend, Event.stackAll, Event.loopsAll,
        Event.rowsAll, Usage.requireAll]
  | cons event events ih =>
      have hLog : (draft.extend (event :: events)).log =
          ((draft.apply event).extend events).log := rfl
      rw [hLog]
      change (draft.apply event).extend events = _
      have hRest := ih (draft.apply event)
      generalize ((draft.apply event).extend events).log = log
        at hRest ⊢
      rw [hRest, apply_eq draft event]
      simp only [Event.stackAll, Event.loopsAll, Event.rowsAll,
        Usage.requireAll, depth, List.foldl_cons,
        Nat.add_assoc, List.flatMap_cons, List.foldl_append,
        mk.injEq, true_and, and_true]
      constructor
      · exact Array.ext' (by simp)
      · exact Array.ext' (by simp)

@[simp] theorem blocks_extend
    (draft : Draft)
    (events : List Event) :
    (draft.extend events).blocks =
      Event.stackAll draft.blocks events := by
  rw [extend_eq]

@[simp] theorem loops_extend
    (draft : Draft)
    (events : List Event) :
    (draft.extend events).loops =
      draft.loops + Event.loopsAll events := by
  rw [extend_eq]

@[simp] theorem usage_extend
    (draft : Draft)
    (events : List Event) :
    (draft.extend events).usage =
      draft.usage.requireAll (events.flatMap Event.needs) := by
  rw [extend_eq]

@[simp] theorem toList_rows_extend
    (draft : Draft)
    (events : List Event) :
    (draft.extend events).rows.toList =
      draft.rows.toList ++
        Event.rowsAll draft.file draft.blocks events := by
  rw [extend_eq]
  simp

@[simp] theorem toList_diagnostics_extend
    (draft : Draft)
    (events : List Event) :
    (draft.extend events).diagnostics.toList =
      draft.diagnostics.toList ++
        events.flatMap Event.reports := by
  rw [extend_eq]
  simp

@[simp] theorem file_extend
    (draft : Draft)
    (events : List Event) :
    (draft.extend events).file = draft.file := by
  rw [extend_eq]

@[simp] theorem unit_extend
    (draft : Draft)
    (events : List Event) :
    (draft.extend events).unit = draft.unit := by
  rw [extend_eq]

theorem extend_append
    (draft : Draft)
    (a b : List Event) :
    draft.extend (a ++ b) = (draft.extend a).extend b :=
  List.foldl_append

end Draft

------------------------------------------------------------
-- Sequences of Statements
------------------------------------------------------------

namespace Command

/- The events of statements, each on its line. -/
def eventsAll
    (blocks : List Frame)
    (loops : Nat) : List (Nat × Command) → List Event
  | [] => []
  | (line, command) :: commands =>
      let events := command.events blocks loops line
      events ++ eventsAll (Event.stackAll blocks events)
        (loops + Event.loopsAll events) commands

theorem eventsAll_append
    (blocks : List Frame)
    (loops : Nat)
    (a b : List (Nat × Command)) :
    eventsAll blocks loops (a ++ b) =
      eventsAll blocks loops a ++
        eventsAll
          (Event.stackAll blocks (eventsAll blocks loops a))
          (loops + Event.loopsAll (eventsAll blocks loops a))
          b := by
  induction a generalizing blocks loops with
  | nil => rfl
  | cons command a ih =>
      simp only [List.cons_append, eventsAll, ih,
        List.append_assoc, Event.stackAll_append,
        Event.loopsAll_append, Nat.add_assoc]

/- The events of statements up to the end of the script. -/
def eventsToEnd
    (blocks : List Frame)
    (loops : Nat)
    (commands : List (Nat × Command)) : List Event :=
  let events := eventsAll blocks loops commands
  events ++ Event.closeAll (Event.stackAll blocks events)

end Command

namespace Draft

/- Write statements one after the other, each on its line. -/
def addCommands
    (draft : Draft)
    (commands : List (Nat × Command)) : Draft :=
  commands.foldl
    (fun draft command =>
      draft.addCommand command.1 command.2) draft

@[simp] theorem addCommands_nil
    (draft : Draft) :
    draft.addCommands [] = draft := rfl

@[simp] theorem addCommands_cons
    (draft : Draft)
    (command : Nat × Command)
    (commands : List (Nat × Command)) :
    draft.addCommands (command :: commands) =
      (draft.addCommand command.1 command.2).addCommands
        commands := rfl

theorem addCommands_append
    (draft : Draft)
    (a b : List (Nat × Command)) :
    draft.addCommands (a ++ b) =
      (draft.addCommands a).addCommands b :=
  List.foldl_append

/- Statements make of a draft what their events make of it. -/
theorem addCommands_eq_extend
    (draft : Draft)
    (commands : List (Nat × Command)) :
    draft.addCommands commands =
      draft.extend (Command.eventsAll draft.blocks draft.loops
        commands) := by
  induction commands generalizing draft with
  | nil => rfl
  | cons command commands ih =>
      rw [addCommands_cons, ih, addCommand, blocks_extend,
        loops_extend, ← extend_append]
      rfl

/- The events of statements, and those at the end of the script. -/
theorem finish_addCommands_eq_extend
    (draft : Draft)
    (commands : List (Nat × Command)) :
    (draft.addCommands commands).finish =
      draft.extend (Command.eventsToEnd draft.blocks
        draft.loops commands) := by
  rw [finish, addCommands_eq_extend, blocks_extend,
    ← extend_append]
  rfl

@[simp] theorem file_addCommands
    (draft : Draft)
    (commands : List (Nat × Command)) :
    (draft.addCommands commands).file = draft.file := by
  rw [addCommands_eq_extend, file_extend]

@[simp] theorem unit_addCommands
    (draft : Draft)
    (commands : List (Nat × Command)) :
    (draft.addCommands commands).unit = draft.unit := by
  rw [addCommands_eq_extend, unit_extend]

/- Statements leave the rows before them as they are. -/
theorem rows_prefix_addCommands
    (draft : Draft)
    (commands : List (Nat × Command)) :
    draft.rows.toList <+:
      (draft.addCommands commands).rows.toList := by
  rw [addCommands_eq_extend, toList_rows_extend]
  exact List.prefix_append _ _

/- What the log holds makes no difference to what is written. -/
theorem extend_withLog
    (draft : Draft)
    (log : Array Record)
    (events : List Event) :
    ∃ log', { draft with log := log }.extend events =
      { draft.extend events with log := log' } := by
  refine ⟨({ draft with log := log }.extend events).log, ?_⟩
  rw [extend_eq, extend_eq draft events]

end Draft

------------------------------------------------------------
-- Scripts
------------------------------------------------------------

/- The statements of a script with their forms, each on its line. -/
def Command.ofScript
    (script : Text) : List (Nat × Command) :=
  (Statement.ofScript script).map fun statement =>
    (statement.line, Command.ofText statement.text)

namespace Draft

/- Notes change nothing but the log. -/
theorem foldl_note_eq
    (draft : Draft)
    (records : List Record) :
    records.foldl note draft =
      { draft with log := (records.foldl note draft).log } := by
  induction records generalizing draft with
  | nil => rfl
  | cons record records ih => exact ih (draft.note record)

/- The log makes no difference to how statements are written. -/
theorem foldl_addStatement_eq
    (draft : Draft)
    (log : Array Record)
    (statements : List Statement) :
    ∃ log', statements.foldl addStatement
        { draft with log := log } =
      { draft.addCommands (statements.map fun statement =>
          (statement.line, Command.ofText statement.text)) with
        log := log' } := by
  induction statements generalizing draft log with
  | nil => exact ⟨log, rfl⟩
  | cons statement statements ih =>
      have hNotes := foldl_note_eq { draft with log := log }
        (Command.ofText statement.text).records
      rcases extend_withLog draft _
          ((Command.ofText statement.text).events draft.blocks
            draft.loops statement.line) with ⟨mid, hMid⟩
      have hFirst :
          addStatement { draft with log := log } statement =
            { draft.addCommand statement.line
                (Command.ofText statement.text) with
              log := mid } := by
        rw [addStatement, hNotes]
        exact hMid
      rw [List.foldl_cons, hFirst]
      exact ih _ mid

/-
  A script is written by writing its statements, and by
  closing the blocks that they leave open.
-/
theorem ofScript_eq
    (file unit script : Text) :
    ∃ log, ofScript file unit script =
      { ((start file unit).addCommands
          (Command.ofScript script)).finish with
        log := log } := by
  rcases foldl_addStatement_eq (start file unit)
      ((start file unit).note (Statement.countRecord
        (Statement.ofScript script))).log
      (Statement.ofScript script) with ⟨mid, hMid⟩
  rcases extend_withLog
      ((start file unit).addCommands (Command.ofScript script))
      mid
      (Event.closeAll ((start file unit).addCommands
        (Command.ofScript script)).blocks) with ⟨log, hLog⟩
  refine ⟨log, ?_⟩
  have hStatements :
      (Statement.ofScript script).foldl addStatement
          ((start file unit).note (Statement.countRecord
            (Statement.ofScript script))) =
        { (start file unit).addCommands
            (Command.ofScript script) with log := mid } := hMid
  simp only [ofScript]
  rw [hStatements]
  exact hLog

@[simp] theorem file_ofScript
    (file unit script : Text) :
    (ofScript file unit script).file = file := by
  rcases ofScript_eq file unit script with ⟨log, hScript⟩
  simp [hScript, finish, start]

@[simp] theorem unit_ofScript
    (file unit script : Text) :
    (ofScript file unit script).unit = unit := by
  rcases ofScript_eq file unit script with ⟨log, hScript⟩
  simp [hScript, finish, start]

end Draft

end ShellToC
