import ShellToC.Lowering.Command
import ShellToC.Proofs.HelperCalls
import ShellToC.Proofs.LineTexts
import ShellToC.Proofs.References

/-
  This file is about the commands that a program hands over
  to the command interpreter.

  A command reaches the interpreter as it stands in the
  script, apart from its references: a character that is no
  part of one stays where it is.  Whether it reaches the
  interpreter is read off the text that is written: only the
  calls of four helpers take it there.

  Key definitions include:
    * `Helper.takesCommand`
    * `Lexeme.handsOver`
    * `Text.Calls`
    * `Event.HandsOver`

  Main declarations:
    * `Template.exists_atoms_prepare`
    * `Line.handsOver_render`
    * `Event.handsOver_run`
    * `Event.handsOver_pipeline`
-/

namespace ShellToC

open Lexeme

------------------------------------------------------------
-- The Text of a Command
------------------------------------------------------------

namespace Template

/- Whether the character stays in a command as it is. -/
def isKept
    (c : Char) : Bool :=
  Reference.isOutside c && c != '\x27' && c != '\x22'

theorem prepareFrom_cons
    {c : Char}
    (hc : isKept c = true)
    (quote : Word.Quote)
    (rest : Text) :
    prepareFrom quote (c :: rest) =
      c :: prepareFrom quote rest := by
  have hNe : c ≠ '\x5c' ∧ c ≠ '$' ∧ c ≠ '\x27' ∧ c ≠ '\x22' := by
    simp_all [isKept, Reference.isOutside]
  cases quote with
  | none => simp [prepareFrom, hNe]
  | single => simp [prepareFrom, Word.protect, hNe]
  | double => simp [prepareFrom, hNe]

/- A character that is kept is found again, and what follows it too. -/
theorem exists_prepareFrom
    {c : Char}
    (hc : isKept c = true)
    (quote : Word.Quote)
    (before rest : Text) :
    ∃ lead quote', prepareFrom quote (before ++ c :: rest) =
      lead ++ c :: prepareFrom quote' rest := by
  have hProtect : Word.protect c = [c] := by
    simp_all [isKept, Reference.isOutside, Word.protect]
  fun_induction prepareFrom quote before with
  | case1 quote =>
      exact ⟨[], quote, prepareFrom_cons hc quote rest⟩
  | case2 before ih | case6 before ih =>
      rcases ih with ⟨lead, quote, hRest⟩
      exact ⟨'\x27' :: lead, quote,
        by simp [prepareFrom, hRest]⟩
  | case7 before ih | case8 before ih =>
      rcases ih with ⟨lead, quote, hRest⟩
      exact ⟨'\x22' :: lead, quote,
        by simp [prepareFrom, hRest]⟩
  | case3 d before hd ih =>
      rcases ih with ⟨lead, quote, hRest⟩
      exact ⟨Word.protect d ++ lead, quote,
        by simp [prepareFrom, hd, hRest]⟩
  | case4 quote hSingle =>
      exact ⟨Word.protect '\x5c', quote,
        by cases quote <;> simp_all [prepareFrom]⟩
  | case5 quote d before hSingle ih =>
      rcases ih with ⟨lead, quote', hRest⟩
      exact ⟨Word.protect '\x5c' ++ Word.protect d ++ lead,
        quote', by cases quote <;> simp_all [prepareFrom]⟩
  | case9 quote d before hSingle hAlone hEscape _ _ _ ih =>
      have hd : d ≠ '\x5c' := by
        cases before with
        | nil => exact fun hd => hAlone hd rfl
        | cons e before => exact fun hd => hEscape e before hd rfl
      rcases ih with ⟨lead, quote', hRest⟩
      exact ⟨d :: lead, quote',
        by cases quote <;> simp_all [prepareFrom]⟩

/-
  A character that is kept separates what a command denotes.
  Which quotes are open behind it depends on what stands
  before it.
-/
theorem exists_atoms_prepare
    {c : Char}
    (hc : isKept c = true)
    (before rest : Text) :
    ∃ lead quote,
      Reference.atoms .leave
          (prepare (before ++ c :: c :: rest)) =
        lead ++ .char c :: .char c ::
          Reference.atoms .leave (prepareFrom quote rest) := by
  have hOutside : Reference.isOutside c = true := by
    simp_all [isKept]
  rcases exists_prepareFrom hc .none before (c :: rest) with
    ⟨lead, quote, hPrepare⟩
  refine ⟨Reference.atoms .leave lead, quote, ?_⟩
  rw [prepare, hPrepare, prepareFrom_cons hc,
    Reference.atoms_append hOutside,
    ← List.nil_append (c :: prepareFrom quote rest),
    Reference.atoms_append hOutside, Reference.atoms_nil]
  rfl

end Template

------------------------------------------------------------
-- Calls of the Command Interpreter
------------------------------------------------------------

/- Whether the helper has the interpreter carry out commands. -/
def Helper.takesCommand : Helper → Bool
  | .run => true
  | .capture => true
  | .pipeline => true
  | .background => true
  | _ => false

/- Whether the lexemes call a helper that takes commands. -/
def Lexeme.handsOver
    (ls : List Lexeme) : Bool :=
  (calls ls).any fun w =>
    (Helper.ofName? w).any Helper.takesCommand

/-
  The texts of lines that call the command interpreter, and
  the commands that they hand over.
-/
inductive Text.Calls : List Text → List StringExpr → Prop where
  | run (e : StringExpr) :
      Calls ["last_status = sh_run(" ++ e.render ++ ");"] [e]
  | capture (e : StringExpr) :
      Calls ["char *sh_out = sh_capture(" ++ e.render ++ ");"] [e]
  | background (e : StringExpr) :
      Calls ["last_bg_pid = sh_background(" ++ e.render ++ ");"]
        [e]
  | pipeline (es : List StringExpr) :
      Calls
        ["const char *sh_cmds[" ++ ofNat es.length ++ "] = \x7b " ++
           joinWith ", " (es.map StringExpr.render) ++ " \x7d;",
         "int sh_statuses[" ++ ofNat es.length ++ "];",
         "int sh_rc = sh_pipeline(sh_cmds, " ++ ofNat es.length ++
           ", sh_statuses);"] es

namespace Line

/- A line hands over what it asks a helper that takes commands for. -/
theorem handsOver_render
    {line : Line}
    (h : line.IsLegible) :
    handsOver (ofText line.render) =
      line.needs.any Helper.takesCommand := by
  have hUses := uses_lexemes h
  rw [(readsWhole_render h).ofText_eq, Bool.eq_iff_iff, handsOver,
    List.any_eq_true, List.any_eq_true]
  constructor
  · rintro ⟨w, hw, hTakes⟩
    cases hName : Helper.ofName? w with
    | none =>
        rw [hName] at hTakes
        cases hTakes
    | some helper =>
        rw [hName] at hTakes
        rw [← Helper.name_of_ofName? hName] at hw
        exact ⟨helper, (hUses.mem_calls_iff helper).mp hw, hTakes⟩
  · rintro ⟨helper, hNeeds, hTakes⟩
    exact ⟨helper.name, hUses.called helper hNeeds, by
      rwa [helper.ofName?_name]⟩

end Line

/- Texts that call the interpreter hand something over. -/
theorem Text.Calls.exists_handsOver
    {texts : List Text}
    {es : List StringExpr}
    (h : Calls texts es) :
    ∃ text ∈ texts, handsOver (ofText text) = true := by
  have hLine {line : Line}
      (hLegible : line.IsLegible)
      (hNeeds : line.needs.any Helper.takesCommand = true) :
      handsOver (ofText line.render) = true := by
    rw [Line.handsOver_render hLegible, hNeeds]
  cases h with
  | run e =>
      refine ⟨_, List.mem_cons_self, ?_⟩
      rw [← Line.render_run]
      exact hLine trivial
        (by simp [Line.needs, Helper.takesCommand])
  | capture e =>
      refine ⟨_, List.mem_cons_self, ?_⟩
      rw [← Line.render_declareOutput]
      exact hLine trivial
        (by simp [Line.needs, Helper.takesCommand])
  | background e =>
      refine ⟨_, List.mem_cons_self, ?_⟩
      rw [← Line.render_startJob]
      exact hLine trivial
        (by simp [Line.needs, Helper.takesCommand])
  | pipeline =>
      -- The stages are only declared before the call.
      refine ⟨_, List.mem_cons_of_mem _
        (List.mem_cons_of_mem _ List.mem_cons_self), ?_⟩
      rw [← Line.render_declareResult]
      exact hLine trivial
        (by simp [Line.needs, Helper.takesCommand])

namespace Event

/- The line that an event writes. -/
def line? : Event → Option Line
  | .write _ line => some line
  | _ => none

/-
  The events hand commands over in one call.  They write the
  lines that build the commands, and those of the call behind
  them.
-/
def HandsOver
    (events : List Event)
    (commands : List Text) : Prop :=
  ∃ temps texts,
    let values := List.zipWith
      (fun temp command =>
        Value.ofTemplate temp (.ofCommand command))
      temps commands
    temps.length = commands.length ∧
      Text.Calls texts (values.map Value.expr) ∧
        ((values.flatMap Value.declarations).map Line.render ++
          texts).Sublist ((events.filterMap line?).map Line.render)

/- What is written besides makes no difference. -/
theorem HandsOver.sublist
    {events more : List Event}
    {commands : List Text}
    (h : HandsOver events commands)
    (hMore : events.Sublist more) :
    HandsOver more commands := by
  rcases h with ⟨temps, texts, hLength, hCalls, hWritten⟩
  exact ⟨temps, texts, hLength, hCalls,
    hWritten.trans ((hMore.filterMap line?).map Line.render)⟩

/- Commands are handed over by a line that does so. -/
theorem HandsOver.exists_write
    {events : List Event}
    {commands : List Text}
    (h : HandsOver events commands) :
    ∃ extra line, .write extra line ∈ events ∧
      handsOver (ofText line.render) = true := by
  rcases h with ⟨temps, texts, -, hCalls, hWritten⟩
  rcases hCalls.exists_handsOver with ⟨text, hText, hHands⟩
  have hMem := hWritten.mem (List.mem_append_right _ hText)
  rcases List.mem_map.mp hMem with ⟨line, hLine, rfl⟩
  rcases List.mem_filterMap.mp hLine with ⟨event, hEvent, hWrite⟩
  cases event with
  | write extra other =>
      cases hWrite
      exact ⟨extra, line, hEvent, hHands⟩
  | _ => cases hWrite

theorem filterMap_line?_lines
    (extra : Nat)
    (ls : List Line) :
    (lines extra ls).filterMap line? = ls := by
  simp [lines, List.filterMap_map, Function.comp_def, line?]

/- Values are declared before the lines that use them. -/
theorem sublist_withValuesInScope
    (values : List Value)
    (first later : List Line) :
    ((values.flatMap Value.declarations).map Line.render ++
        first.map Line.render).Sublist
      (((withValuesInScope values (first ++ later)).filterMap
        line?).map Line.render) := by
  rw [withValuesInScope, inScope, List.cons_append,
    List.filterMap_cons, List.filterMap_append,
    filterMap_line?_lines, ← List.map_append]
  refine List.Sublist.map _ (List.Sublist.cons _ ?_)
  rw [← List.append_assoc, List.append_assoc _ later]
  exact (List.sublist_append_left _ _).trans
    (List.sublist_append_left _ _)

theorem sublist_withValues
    (values : List Value)
    (first later : List Line) :
    ((values.flatMap Value.declarations).map Line.render ++
        first.map Line.render).Sublist
      (((withValues values (first ++ later)).filterMap
        line?).map Line.render) := by
  rw [withValues]
  split
  next hNone =>
    rw [List.isEmpty_iff.mp hNone, filterMap_line?_lines,
      List.map_append]
    exact List.sublist_append_left _ _
  next => exact sublist_withValuesInScope values first later

/- A command that is run is handed over. -/
theorem handsOver_run
    (command : Text) :
    HandsOver (run command) [command] := by
  let value := Value.ofTemplate .command (.ofCommand command)
  refine ⟨[.command], [(Line.run value.expr).render], rfl, ?_,
    sublist_withValues [value] [.run value.expr] []⟩
  rw [Line.render_run]
  exact .run value.expr

theorem handsOver_background
    (command : Text) :
    HandsOver (background command) [command] := by
  let value := Value.ofTemplate .command (.ofCommand command)
  refine ⟨[.command], [(Line.startJob value.expr).render], rfl,
    ?_, sublist_withValues [value] [.startJob value.expr] [_]⟩
  rw [Line.render_startJob]
  exact .background value.expr

theorem handsOver_captureAssign
    (name command : Text) :
    HandsOver (captureAssign name command) [command] := by
  let value := Value.ofTemplate .command (.ofCommand command)
  refine ⟨[.command], [(Line.declareOutput value.expr).render],
    rfl, ?_, sublist_withValuesInScope [value]
      [.declareOutput value.expr] [_, _]⟩
  rw [Line.render_declareOutput]
  exact .capture value.expr

/- All stages of a pipeline are handed over in one call. -/
theorem handsOver_pipeline
    (stages : List Text) :
    HandsOver (pipeline stages) stages := by
  have hValues : List.zipWith
      (fun temp command =>
        Value.ofTemplate temp (.ofCommand command))
      ((List.range stages.length).map Temporary.stage) stages =
        stageValues stages := by
    refine List.ext_getElem (by simp [stageValues]) ?_
    intro index _ _
    simp [stageValues]
  let es := (stageValues stages).map Value.expr
  let call : List Line :=
    [.declareStages es, .declareStatuses es.length,
     .declareResult es.length]
  refine ⟨(List.range stages.length).map .stage,
    call.map Line.render, by simp, ?_, ?_⟩
  · rw [hValues]
    simp only [call, List.map_cons, List.map_nil,
      Line.render_declareStages, Line.render_declareResult]
    exact .pipeline es
  · rw [hValues]
    have hWritten := sublist_withValuesInScope
      (stageValues stages) call [.setPipelineStatus]
    simpa [pipeline, call, es] using hWritten

end Event

end ShellToC
