import ShellToC.Proofs.HelperUsage
import ShellToC.Proofs.StatementEmission

/-
  This file shows that a script is written statement by
  statement: what a statement adds to a draft depends on the
  open blocks, the number of loops, the file and the unit of
  indentation, and nothing that was written before changes.

  The file and the unit are only filled in: a whole script
  is written as stencils, which have a place for each of
  them, and which do not depend on either.

  Emissions see more of a draft than that, and change it on
  the way.  They are as local, since each of them writes what
  is said about its statement.

  Key definitions include:
    * `Draft.Alike`
    * `Addition`
    * `Draft.GrowsBy`
    * `Stencil`

  Main declarations:
    * `Draft.growsBy_extend`
    * `Event.fill_stencilsAll`
    * `Program.source_eq_fill`
    * `Draft.written_by_statement`
-/

namespace ShellToC

------------------------------------------------------------
-- What Statements Add
------------------------------------------------------------

/- What is added to a draft. -/
structure Addition where
  text : Text
  reports : List Diagnostic
  helpers : List Helper
  deriving DecidableEq, Repr

/- What events add to a draft of a file. -/
def Event.addition
    (file unit : Text)
    (blocks : List Frame)
    (events : List Event) : Addition where
  text := (rowsAll file blocks events).flatMap (Row.render unit)
  reports := events.flatMap reports
  helpers := (events.flatMap needs).flatMap Helper.required

namespace Draft

/- Drafts that are alike in all that the next statement looks at. -/
structure Alike
    (draft other : Draft) : Prop where
  blocks : draft.blocks = other.blocks
  loops : draft.loops = other.loops
  unit : draft.unit = other.unit
  file : draft.file = other.file

/-
  All that is in the draft is still there, and what is added
  stands behind it.
-/
structure GrowsBy
    (draft : Draft)
    (added : Addition)
    (after : Draft) : Prop where
  body : after.body = draft.body ++ added.text
  diagnostics : after.diagnostics.toList =
    draft.diagnostics.toList ++ added.reports
  usage : ∀ helper, after.usage.contains helper = true ↔
    draft.usage.contains helper = true ∨
      helper ∈ added.helpers

/- Events add to a draft, and take nothing away. -/
theorem growsBy_extend
    (draft : Draft)
    (events : List Event) :
    draft.GrowsBy
      (Event.addition draft.file draft.unit draft.blocks events)
      (draft.extend events) := by
  constructor
  · rw [body, unit_extend, toList_rows_extend,
      List.flatMap_append]
    rfl
  · exact toList_diagnostics_extend draft events
  · intro helper
    rw [usage_extend, Usage.contains_requireAll]
    simp only [Event.addition, List.mem_flatMap (f := Helper.required)]

/- Drafts that are alike stay alike. -/
theorem Alike.addCommand
    {draft other : Draft}
    (h : draft.Alike other)
    (line : Nat)
    (command : Command) :
    (draft.addCommand line command).Alike
      (other.addCommand line command) := by
  constructor
  · rw [Draft.addCommand, Draft.addCommand, blocks_extend,
      blocks_extend, h.blocks, h.loops]
  · rw [Draft.addCommand, Draft.addCommand, loops_extend,
      loops_extend, h.blocks, h.loops]
  · rw [Draft.addCommand, Draft.addCommand, unit_extend,
      unit_extend, h.unit]
  · rw [Draft.addCommand, Draft.addCommand, file_extend,
      file_extend, h.file]

/- Whether drafts are alike does not depend on how lines are held. -/
theorem Alike.of_matches
    {draft other written copied : Draft}
    (h : draft.Alike other)
    (hWritten : written.Matches draft)
    (hCopied : copied.Matches other) :
    written.Alike copied := by
  constructor
  · rw [hWritten.blocks, hCopied.blocks, h.blocks]
  · rw [hWritten.loops, hCopied.loops, h.loops]
  · rw [hWritten.unit, hCopied.unit, h.unit]
  · rw [hWritten.file, hCopied.file, h.file]

/- Nor does it matter for what is added to them. -/
theorem GrowsBy.of_matches
    {draft after written : Draft}
    {added : Addition}
    (h : draft.GrowsBy added after)
    (hSame : written.Matches after) :
    draft.GrowsBy added written := by
  constructor
  · rw [hSame.body, h.body]
  · rw [hSame.diagnostics, h.diagnostics]
  · rw [hSame.usage]
    exact h.usage

end Draft

------------------------------------------------------------
-- Stencils
------------------------------------------------------------

/-
  A line of a program with a place for the unit of its
  indentation, and in the mark of a fault one for the file.
-/
inductive Stencil where
  | code (indent : Nat) (text : Text)
  | mark (indent line : Nat) (message : Text)
  deriving DecidableEq, Repr

/- The line that a stencil gives. -/
def Stencil.fill
    (file unit : Text) : Stencil → Text
  | .code indent text =>
      Text.repeated indent unit ++ text ++ ['\n']
  | .mark indent line message =>
      Text.repeated indent unit ++
        (Line.marker file line message).render ++ ['\n']

namespace Event

/- The stencils that an event writes inside of so many blocks. -/
def stencils
    (depth : Nat) : Event → List Stencil
  | .write extra line => [.code (depth + 1 + extra) line.render]
  | .fail line fault => [.mark (depth + 1) line fault.message]
  | _ => []

/- The stencils that events write. -/
def stencilsAll
    (blocks : List Frame) : List Event → List Stencil
  | [] => []
  | event :: events =>
      event.stencils blocks.length ++
        stencilsAll (event.stack blocks) events

/- The rows of events are their stencils, filled in. -/
theorem fill_stencilsAll
    (file unit : Text)
    (blocks : List Frame)
    (events : List Event) :
    (stencilsAll blocks events).flatMap
        (Stencil.fill file unit) =
      (rowsAll file blocks events).flatMap
        (Row.render unit) := by
  induction events generalizing blocks with
  | nil => rfl
  | cons event events ih =>
      rw [stencilsAll, rowsAll, List.flatMap_append,
        List.flatMap_append, ih]
      congr 1
      cases event <;>
        simp [stencils, rows, Stencil.fill, Row.render]

end Event

namespace Program

/- The text before the lines of the main function. -/
def opening
    (usage : Usage) : Text :=
  preamble ++ declarations usage ++ "\nint main(void)\n\x7b\n"

/- The lines of the main function, the last one among them. -/
def stencils
    (events : List Event) : List Stencil :=
  Event.stencilsAll [] events ++ [.code 1 "return 0;"]

/- The text behind the lines of the main function. -/
def closing
    (usage : Usage) : Text :=
  "\x7d\n" ++ definitions usage

/- The file and the unit only fill in the lines of the main function. -/
theorem assemble_fill
    (file unit : Text)
    (events : List Event)
    (usage : Usage) :
    assemble unit
        ((Event.stencilsAll [] events).flatMap
          (Stencil.fill file unit)) usage =
      opening usage ++
        (stencils events).flatMap (Stencil.fill file unit) ++
        closing usage := by
  have hReturn : Stencil.fill file unit (.code 1 "return 0;") =
      unit ++ Text.ofString "return 0;" ++ ['\n'] := by
    simp [Stencil.fill, Text.repeated]
  have hEnd : Text.ofString "return 0;\n\x7d\n" =
      Text.ofString "return 0;" ++ ['\n'] ++
        Text.ofString "\x7d\n" := by
    decide +kernel
  simp only [assemble, mainFunction, opening, closing, stencils,
    List.flatMap_append, List.flatMap_cons, List.flatMap_nil,
    hReturn, hEnd, List.append_assoc, List.append_nil]

/-
  A script is written as stencils.  Neither they nor what is
  reported and needed depend on the file or the unit.
-/
theorem source_eq_fill
    (file unit script : Text) :
    let events :=
      Command.eventsToEnd [] 0 (Command.ofScript script)
    let program := ofScript file unit script
    program.usage =
        Usage.empty.requireAll (events.flatMap Event.needs) ∧
      program.diagnostics.toList =
        events.flatMap Event.reports ∧
      program.source =
        opening program.usage ++
          (stencils events).flatMap (Stencil.fill file unit) ++
          closing program.usage := by
  intro events program
  rcases Draft.ofScript_eq file unit script with ⟨log, hScript⟩
  rw [Draft.finish_addCommands_eq_extend] at hScript
  refine ⟨Draft.usage_ofScript_eq file unit script, ?_, ?_⟩
  · change (Draft.ofScript file unit script).diagnostics.toList
      = _
    rw [hScript]
    simp only [Draft.toList_diagnostics_extend]
    rfl
  · have hUnit : (Draft.ofScript file unit script).unit = unit :=
      Draft.unit_ofScript file unit script
    have hBody : (Draft.ofScript file unit script).body =
        (Event.stencilsAll [] events).flatMap
          (Stencil.fill file unit) := by
      rw [Draft.body, hUnit, hScript, Event.fill_stencilsAll]
      simp only [Draft.toList_rows_extend]
      rfl
    rw [← assemble_fill, ← hBody]
    change assemble (Draft.ofScript file unit script).unit _ _ = _
    rw [hUnit]
    rfl

end Program

------------------------------------------------------------
-- Statements and Scripts
------------------------------------------------------------

/- Alike drafts grow by the same, and stay alike. -/
theorem Draft.Alike.exists_growsBy
    {draft other : Draft}
    (h : draft.Alike other)
    (line : Nat)
    (command : Command) :
    ∃ added,
      draft.GrowsBy added (draft.addCommand line command) ∧
        other.GrowsBy added (other.addCommand line command) := by
  refine ⟨_, growsBy_extend draft _, ?_⟩
  have hOther := growsBy_extend other
    (command.events other.blocks other.loops line)
  rw [← h.file, ← h.unit, ← h.blocks, ← h.loops] at hOther
  rwa [Draft.addCommand, ← h.blocks, ← h.loops]

/-
  Scripts are written in one pass.  A statement adds the
  same text, reports and helpers to drafts that are alike,
  whatever stands in them, leaves all of that as it is, and
  leaves the drafts alike.

  Of a whole program, the file and the unit change the file
  in the marks of faults and the indentation of lines.  The
  helpers and the reports are the same for all of them.

  An emission could look at all of a draft, at the scopes
  that are open and at the line in hand.  It has the same
  locality, since it writes what its statement writes, and
  whole scripts are written so from the first line to the
  last.
-/
theorem Draft.written_by_statement :
    (∀ (draft other : Draft) (line : Nat) (command : Command),
      draft.Alike other →
      (draft.addCommand line command).Alike
          (other.addCommand line command) ∧
        ∃ added,
          draft.GrowsBy added (draft.addCommand line command) ∧
          other.GrowsBy added
            (other.addCommand line command)) ∧
    (∀ script : Text,
      ∃ opening stencils closing usage diagnostics,
      ∀ file unit : Text,
        let program := Program.ofScript file unit script
        program.usage = usage ∧
          program.diagnostics = diagnostics ∧
          program.source =
            opening ++
              List.flatMap (Stencil.fill file unit) stencils ++
              closing) ∧
    (∀ (draft other : Draft) (line : Nat) (command : Command),
      draft.Alike other →
      ∃ written copied,
        (Emission.statement line command).Turns draft written ∧
        (Emission.statement line command).Turns other copied ∧
        written.verbatim =
          (draft.addCommand line command).verbatim ∧
        copied.verbatim =
          (other.addCommand line command).verbatim ∧
        written.Alike copied ∧
        ∃ added,
          draft.GrowsBy added written ∧
            other.GrowsBy added copied) ∧
    (∀ file unit script : Text,
      ∃ written,
        (Emission.script (Command.ofScript script)).Turns
            (start file unit) written ∧
          let program := Program.ofScript file unit script
          (Program.ofDraft written).source = program.source ∧
            written.usage = program.usage ∧
            written.diagnostics = program.diagnostics) := by
  refine ⟨?_, ?_, ?_, ?_⟩
  · intro draft other line command hAlike
    exact ⟨hAlike.addCommand line command,
      hAlike.exists_growsBy line command⟩
  · intro script
    let events :=
      Command.eventsToEnd [] 0 (Command.ofScript script)
    let usage :=
      Usage.empty.requireAll (events.flatMap Event.needs)
    refine ⟨Program.opening usage, Program.stencils events,
      Program.closing usage, usage,
      (events.flatMap Event.reports).toArray, ?_⟩
    intro file unit program
    rcases Program.source_eq_fill file unit script with
      ⟨hUsage, hReports, hSource⟩
    refine ⟨hUsage, Array.ext' hReports, ?_⟩
    rw [hSource, hUsage]
  · intro draft other line command hAlike
    rcases hAlike.exists_growsBy line command with
      ⟨added, hDraft, hOther⟩
    have hWritten := draft.verbatim_inscribeAll
      (command.events draft.blocks draft.loops line)
    have hCopied := other.verbatim_inscribeAll
      (command.events other.blocks other.loops line)
    have hSame := matches_of_verbatim hWritten
    have hCopy := matches_of_verbatim hCopied
    have hTogether := (hAlike.addCommand line command).of_matches
      hSame hCopy
    exact ⟨_, _, Emission.turns_statement draft line command,
      Emission.turns_statement other line command, hWritten,
      hCopied, hTogether, added, hDraft.of_matches hSame,
      hOther.of_matches hCopy⟩
  · intro file unit script
    rcases Emission.exists_turns_script (Command.ofScript script)
      (start file unit) with ⟨written, hTurns, hWritten⟩
    rcases ofScript_eq file unit script with ⟨log, hScript⟩
    have hSame := matches_of_verbatim hWritten
    refine ⟨written, hTurns, ?_⟩
    rw [Program.ofScript, hScript]
    refine ⟨?_, hSame.usage, hSame.diagnostics⟩
    simp only [Program.ofDraft, hSame.unit, hSame.body,
      hSame.usage]
    rfl

/- A loop behind a fault and an assignment, and at the start. -/
theorem Draft.written_by_statement_of_loop :
    let draft := start "a.sh" "  "
    let other := draft.addCommands
      [(1, ⟨"fi", .ifClose⟩), (2, ⟨"y=a$x", .assign "y" "a$x"⟩)]
    let command : Command :=
      ⟨"for i in a$x", .forOpen "i" (some "a$x")⟩
    let script : Text := "if true\nfi\nfi"
    draft.Alike other ∧
    (draft.usage.contains .format = false ∧
      other.usage.contains .format = true) ∧
    (draft.addCommand 3 command).Alike
      (other.addCommand 3 command) ∧
    (∃ added,
      draft.GrowsBy added (draft.addCommand 3 command) ∧
        other.GrowsBy added (other.addCommand 3 command)) ∧
    (∃ opening stencils closing usage diagnostics,
    ∀ file unit : Text,
      let program := Program.ofScript file unit script
      program.usage = usage ∧
        program.diagnostics = diagnostics ∧
        program.source =
          opening ++
            List.flatMap (Stencil.fill file unit) stencils ++
            closing) ∧
    ∃ written copied,
      (Emission.statement 3 command).Turns draft written ∧
      (Emission.statement 3 command).Turns other copied ∧
      written.Alike copied ∧
      ∃ added,
        draft.GrowsBy added written ∧
          other.GrowsBy added copied := by
  intro draft other command script
  have hAlike : draft.Alike other :=
    ⟨by decide +kernel, by decide +kernel,
      (unit_addCommands draft _).symm,
      (file_addCommands draft _).symm⟩
  have hAdded := written_by_statement.1 draft other 3 command
    hAlike
  rcases written_by_statement.2.2.1 draft other 3 command
    hAlike with
    ⟨written, copied, hDraft, hOther, -, -, hTogether, hGrows⟩
  exact ⟨hAlike, ⟨by decide +kernel, by decide +kernel⟩,
    hAdded.1, hAdded.2, written_by_statement.2.1 script, written,
    copied, hDraft, hOther, hTogether, hGrows⟩

end ShellToC
