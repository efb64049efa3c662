import ShellToC.Proofs.CommandEmission

/-
  This file shows that emissions write what is said about
  statements without them: every statement makes the same of
  a draft, line by line, helper by helper and record by
  record, whatever the draft is.

  Main declarations:
    * `Emission.outcome_command`
    * `Emission.turns_statement`
    * `Emission.exists_turns_script`
-/

namespace ShellToC

------------------------------------------------------------
-- Texts of Statements
------------------------------------------------------------

/- Statements write the same texts behind the same texts. -/
theorem Draft.verbatim_addCommands
    {draft other : Draft}
    (h : draft.verbatim = other.verbatim)
    (commands : List (Nat × Command)) :
    (draft.addCommands commands).verbatim =
      (other.addCommands commands).verbatim := by
  have hSame := matches_of_verbatim h
  rw [addCommands_eq_extend, addCommands_eq_extend,
    verbatim_extend, verbatim_extend, h, hSame.blocks,
    hSame.loops]

namespace Emission

------------------------------------------------------------
-- Opening Blocks
------------------------------------------------------------

theorem writes_openBranch
    (line : Nat)
    (keyword cond : Text)
    (chained : Bool) :
    Writes line (openBranch keyword cond chained)
      (Event.openBranch line cond
        ⟨.conditional, keyword, line, chained, false, []⟩) := by
  intro draft
  rw [openBranch, outcome_bind, writes_condition line cond,
    Event.openBranch, Draft.inscribeAll_append]
  simp only [outcome_bind, outcome_emit, outcome_get,
    outcome_push, ← Line.render_openOnSuccess]
  rfl

theorem writes_openWhile
    (line : Nat)
    (cond : Text) :
    Writes line (openWhile cond) (Event.openWhile line cond) := by
  intro draft
  rw [Event.openWhile, Draft.inscribeAll_append,
    Draft.inscribeAll_append]
  simp only [openWhile, outcome_bind, outcome_emit, outcome_get,
    outcome_push]
  rw [writes_condition line cond]
  simp only [outcome_emitNested, ← Line.render_openOnFailure]
  rfl

/- The innermost block is closed, if there is one. -/
theorem outcome_popFor
    (keyword : Text)
    (draft : Draft)
    (scope line : Nat) :
    (popFor keyword).outcome ⟨draft, scope, line⟩ =
      match draft.blocks with
      | [] => (.error (.unopened keyword), ⟨draft, scope, line⟩)
      | frame :: _ =>
          (.ok frame, ⟨draft.inscribe .pop, scope, line⟩) := by
  rcases draft with ⟨file, unit, blocks⟩
  cases blocks <;> rfl

/- A block that takes no `else` is left as it was. -/
theorem outcome_reopenIf
    (keyword : Text)
    (draft : Draft)
    (line : Nat) :
    (reopenIf keyword).outcome ⟨draft, 0, line⟩ =
      match draft.blocks with
      | [] => (.error (.unopened keyword), ⟨draft, 0, line⟩)
      | frame :: _ =>
          if frame.takesElse then
            (.ok { frame with inElse := true },
              ⟨draft.inscribeAll [.pop, .write 0 .openElse], 0,
                line⟩)
          else
            (.error (.unopened keyword),
              ⟨draft.inscribeAll [.pop, .push frame], 0,
                line⟩) := by
  rw [reopenIf, outcome_bind, outcome_popFor]
  cases draft.blocks with
  | nil => rfl
  | cons frame rest =>
      have hTakes : frame.takesElse = true ↔
          ¬ (frame.kind ≠ .conditional ∨
            frame.inElse = true) := by
        simp [Frame.takesElse]
      by_cases hElse : frame.takesElse = true
      · simp only [if_pos hElse, if_neg (hTakes.mp hElse)]
        rfl
      · have hLeft := Decidable.not_not.mp (mt hTakes.mpr hElse)
        simp only [if_neg hElse, if_pos hLeft]
        rfl

/- A block goes over to its `else` branch, and on from there. -/
theorem outcome_marked_reopenIf
    {line : Nat}
    {keyword : Text}
    {next : Frame → Emission Unit}
    {events : List Event}
    (hNext : ∀ frame,
      Writes line (next frame) (.push frame :: events))
    (draft : Draft) :
    (marked (do
        let frame ← reopenIf keyword
        next frame)).outcome ⟨draft, 0, line⟩ =
      (.ok (), ⟨draft.inscribeAll
        (Event.continueElse line keyword draft.blocks events), 0,
          line⟩) := by
  rw [marked, outcome_bind, outcome_attempt, outcome_bind,
    outcome_reopenIf, Event.continueElse.eq_def]
  cases draft.blocks with
  | nil => rfl
  | cons frame rest =>
      by_cases hElse : frame.takesElse = true
      · simp only [if_pos hElse]
        rw [hNext]
        rfl
      · simp only [if_neg hElse]
        rfl

theorem writes_push
    (line : Nat)
    (frame : Frame) :
    Writes line (push frame) [.push frame] :=
  fun _ => rfl

theorem outcome_openElse
    (draft : Draft)
    (line : Nat) :
    (marked openElse).outcome ⟨draft, 0, line⟩ =
      (.ok (),
        ⟨draft.inscribeAll (Event.openElse line draft.blocks), 0,
          line⟩) :=
  outcome_marked_reopenIf (writes_push line) draft

theorem outcome_openElif
    (draft : Draft)
    (line : Nat)
    (cond : Text) :
    (marked (openElif cond)).outcome ⟨draft, 0, line⟩ =
      (.ok (),
        ⟨draft.inscribeAll
          (Event.openElif line cond draft.blocks), 0, line⟩) :=
  outcome_marked_reopenIf (fun frame =>
    (writes_push line frame).bind
      (writes_openBranch line "elif" cond true)) draft

------------------------------------------------------------
-- Loops over Items
------------------------------------------------------------

/- An item that is built is written as the call that builds it. -/
theorem outcome_item
    (template : Template)
    (draft : Draft)
    (scope line : Nat) :
    (item true template).outcome ⟨draft, scope, line⟩ =
      (.ok (Event.buildItem template).renderBuild,
        ⟨(Event.buildItem template).buildNeeds.foldl Draft.require
          draft, scope, line⟩) := by
  cases template with
  | literal text =>
      rw [Event.buildItem, FormatCall.renderBuild_copy]
      rfl
  | format format args =>
      exact outcome_formatCall "sh_format" format args
        (draft.require .format) scope line

theorem outcome_items_built
    (templates : List Template)
    (draft : Draft)
    (scope line : Nat) :
    let calls := templates.map Event.buildItem
    (items true templates).outcome ⟨draft, scope, line⟩ =
      (.ok (calls.map FormatCall.renderBuild),
        ⟨(calls.flatMap FormatCall.buildNeeds).foldl Draft.require
          draft, scope, line⟩) := by
  induction templates generalizing draft with
  | nil => rfl
  | cons template templates ih =>
      rw [items, outcome_bind, outcome_item]
      simp only [outcome_bind, ih]
      simp

theorem outcome_items_literal
    {templates : List Template}
    (h : templates.all Template.isLiteral = true)
    (pen : Pen) :
    (items false templates).outcome pen =
      (.ok ((templates.map Template.text).map Literal.quote),
        pen) := by
  induction templates with
  | nil => rfl
  | cons template templates ih =>
      rw [List.all_cons, Bool.and_eq_true] at h
      cases template with
      | format format args => cases h.1
      | literal text =>
          rw [items, outcome_bind, item]
          simp only [Bool.false_eq_true, if_false, outcome_pure,
            outcome_bind, ih h.2]
          rfl

/-
  The items are those of the line that declares them.  All
  of them are built, or none is.
-/
theorem exists_outcome_items
    (loop : Nat)
    (templates : List Template)
    (draft : Draft)
    (scope line : Nat) :
    let declaration := Event.declareItems loop templates
    ∃ exprs,
      exprs.length = templates.length ∧
      declaration.render =
        (if !templates.all Template.isLiteral then
          Text.ofString "char *"
        else
          "static const char *const ") ++
          ("sh_items_" ++ Text.ofNat loop) ++ "[] = \x7b " ++
          Text.joinWith ", " exprs ++ " \x7d;" ∧
      (items (!templates.all Template.isLiteral) templates).outcome
          ⟨draft, scope, line⟩ =
        (.ok exprs,
          ⟨declaration.needs.foldl Draft.require draft, scope,
            line⟩) := by
  unfold Event.declareItems
  cases hLiteral : templates.all Template.isLiteral with
  | true =>
      refine ⟨(templates.map Template.text).map Literal.quote,
        by simp, ?_, outcome_items_literal hLiteral _⟩
      simp only [if_true, Line.render_declareItems]
      simp [Text.ofString_eq]
  | false =>
      refine ⟨(templates.map Event.buildItem).map
        FormatCall.renderBuild, by simp, ?_,
        outcome_items_built templates draft scope line⟩
      simp only [Bool.false_eq_true, if_false,
        Line.render_declareBuiltItems]
      simp [Text.ofString_eq]

theorem outcome_openForItems
    (draft : Draft)
    (line : Nat)
    (var : Text)
    (templates : List Template) :
    (openForItems var templates).outcome ⟨draft, 0, line⟩ =
      (.ok (),
        ⟨draft.inscribeAll
          (Event.openForItems line (draft.loops + 1) var
            templates), 0, line⟩) := by
  let loop := draft.loops + 1
  let declaration := Event.declareItems loop templates
  rcases exists_outcome_items loop templates draft 0 line with
    ⟨exprs, hCount, hText, hItems⟩
  have hLoops : (declaration.needs.foldl Draft.require
      draft).loops = draft.loops := by
    rw [Draft.foldl_require_eq]
  have hOpen : (Line.openItems loop templates.length).render =
      "for (size_t " ++ ("sh_i_" ++ Text.ofNat loop) ++ " = 0; " ++
        ("sh_i_" ++ Text.ofNat loop) ++ " < " ++
        Text.ofNat templates.length ++ "; " ++
        ("sh_i_" ++ Text.ofNat loop) ++ "++) \x7b" := rfl
  have hAssign : (Line.assignItem var loop).render =
      "setenv(" ++ Literal.quote var ++ ", " ++
        ("sh_items_" ++ Text.ofNat loop) ++ "[" ++
        ("sh_i_" ++ Text.ofNat loop) ++ "], 1);" := by
    rw [Line.render_assignItem]
    simp [Text.ofString_eq]
  have hFree : (if !templates.all Template.isLiteral then
        (List.range templates.length).map (.freeItem loop)
      else
        []) = Event.freeItems loop templates := by
    cases hLiteral : templates.all Template.isLiteral <;>
      simp [Event.freeItems, hLiteral]
  rw [openForItems, outcome_bind, hItems]
  -- The loop is counted behind the helpers of its items, where
  -- the events count it before.
  simp only [outcome_bind, outcome_takeLoop, outcome_emit,
    outcome_get, outcome_push, hCount]
  rw [hLoops, ← hText, ← hOpen, ← hAssign, hFree,
    ← Draft.foldl_require_countLoop]
  rfl

theorem outcome_openFor
    (draft : Draft)
    (line : Nat)
    (var : Text)
    (list : Option Text) :
    (openFor var list).outcome ⟨draft, 0, line⟩ =
      (.ok (),
        ⟨draft.inscribeAll
          (Event.openFor line draft.loops var list), 0,
            line⟩) := by
  rw [openFor, Event.openFor.eq_def]
  cases Word.split (list.getD []) with
  | nil => rfl
  | cons word words =>
      exact outcome_openForItems draft line var
        ((word :: words).map Template.ofWord)

------------------------------------------------------------
-- Closing Blocks
------------------------------------------------------------

theorem writes_epilogue
    (line : Nat)
    (ls : List Line) :
    Writes line (epilogue ls) (Event.lines 0 ls) := by
  induction ls with
  | nil => exact fun _ => rfl
  | cons l ls ih =>
      intro draft
      rw [epilogue, outcome_bind, outcome_update]
      simp only [outcome_bind]
      rw [outcome_emit_line rfl]
      exact ih _

theorem writes_closeFrame
    (line : Nat)
    (frame : Frame) :
    Writes line (closeFrame frame) (Event.closeFrame frame) :=
  (writes_emit (l := .close) rfl rfl line).bind
    (writes_epilogue line frame.epilogue)

/- The innermost block is closed with what belongs to it. -/
theorem outcome_close
    (keyword : Text)
    (expected : BlockKind)
    (draft : Draft)
    (line : Nat) :
    (close keyword expected).outcome ⟨draft, 0, line⟩ =
      match draft.blocks with
      | [] => (.error (.unopened keyword), ⟨draft, 0, line⟩)
      | frame :: _ =>
          (.ok frame,
            ⟨draft.inscribeAll
              (Event.closeAs line keyword expected frame), 0,
                line⟩) := by
  rw [close, outcome_bind, outcome_popFor]
  cases draft.blocks with
  | nil => rfl
  | cons frame rest =>
      have hClose := writes_closeFrame line frame
      by_cases hKind : frame.kind = expected
      · have hSame : ¬ frame.kind ≠ expected := not_not_intro hKind
        simp only [Event.closeAs, if_pos hKind, if_neg hSame,
          outcome_bind]
        rw [hClose]
        rfl
      · simp only [Event.closeAs, if_neg hKind, if_pos hKind,
          outcome_bind, outcome_get, outcome_update]
        rw [hClose]
        rfl

theorem outcome_pop?
    (draft : Draft)
    (scope line : Nat) :
    pop?.outcome ⟨draft, scope, line⟩ =
      match draft.blocks with
      | [] => (.ok none, ⟨draft, scope, line⟩)
      | frame :: _ =>
          (.ok (some frame),
            ⟨draft.inscribe .pop, scope, line⟩) := by
  rcases draft with ⟨file, unit, blocks⟩
  cases blocks <;> rfl

/- A block is closed with all of the blocks that it continues. -/
theorem outcome_closeChain
    (frame : Frame)
    {blocks : List Frame}
    {draft : Draft}
    (hBlocks : draft.blocks = blocks)
    (line : Nat) :
    (closeChain frame blocks).outcome ⟨draft, 0, line⟩ =
      (.ok (),
        ⟨draft.inscribeAll
          (if frame.chained then
            Event.closeChain blocks
          else
            []), 0, line⟩) := by
  induction blocks generalizing frame draft with
  | nil =>
      rw [Event.closeChain, ite_self]
      rfl
  | cons outer rest ih =>
      rw [closeChain]
      by_cases hChained : frame.chained = true
      · let after := draft.inscribeAll
          (.pop :: Event.closeFrame outer)
        have hRest : after.blocks = rest := by
          rw [Draft.blocks_inscribeAll, hBlocks]
          exact Event.stackAll_of_steady
            (Event.all_isSteady_closeFrame outer) rest
        rw [if_pos hChained, if_pos hChained, Event.closeChain,
          Draft.inscribeAll_append, outcome_bind, outcome_pop?,
          hBlocks]
        simp only [outcome_bind]
        rw [writes_closeFrame line outer]
        exact ih outer hRest
      · rw [if_neg hChained, if_neg hChained]
        rfl

theorem outcome_closeIf
    (draft : Draft)
    (line : Nat) :
    (marked closeIf).outcome ⟨draft, 0, line⟩ =
      (.ok (),
        ⟨draft.inscribeAll (Event.closeIf line draft.blocks), 0,
          line⟩) := by
  rw [marked, outcome_bind, outcome_attempt, closeIf,
    outcome_bind, outcome_close]
  cases hBlocks : draft.blocks with
  | nil => rfl
  | cons frame rest =>
      let after := draft.inscribeAll
        (Event.closeAs line "fi" .conditional frame)
      have hRest : after.blocks = rest := by
        rw [Draft.blocks_inscribeAll, hBlocks,
          Event.stackAll_closeAs]
      simp only [outcome_bind, outcome_get]
      rw [outcome_closeChain frame rfl, hRest, Event.closeIf,
        Draft.inscribeAll_append]
      rfl

theorem outcome_closeLoop
    (draft : Draft)
    (line : Nat) :
    (marked closeLoop).outcome ⟨draft, 0, line⟩ =
      (.ok (),
        ⟨draft.inscribeAll (Event.closeLoop line draft.blocks), 0,
          line⟩) := by
  rw [marked, outcome_bind, outcome_attempt, closeLoop,
    outcome_bind, outcome_close]
  cases draft.blocks <;> rfl

------------------------------------------------------------
-- Statements
------------------------------------------------------------

/- Every form of statement writes what is said about it. -/
theorem outcome_command
    (draft : Draft)
    (line : Nat)
    (command : Command) :
    (marked (Emission.command command)).outcome
        ⟨draft, 0, line⟩ =
      (.ok (),
        ⟨draft.inscribeAll
          (command.events draft.blocks draft.loops line), 0,
            line⟩) := by
  rcases command with ⟨text, form⟩
  cases form with
  | comment => rfl
  | bodyOpen => rfl
  | pipeline stages =>
      exact (writes_pipeline line stages).marked draft
  | echo args => exact (settles_echo line _).marked draft
  | arithAssign name expr =>
      exact (settles_arithAssign line name expr).marked draft
  | captureAssign name body =>
      exact (writes_captureAssign line name body).marked draft
  | arithPrint expr =>
      exact (settles_arithPrint line expr).marked draft
  | test expr => exact (writes_test line expr).marked draft
  | changeDir dir => exact (settles_changeDir line dir).marked draft
  | ifOpen cond =>
      exact (writes_openBranch line "if" cond false).marked draft
  | elifBranch cond => exact outcome_openElif draft line cond
  | whileOpen cond =>
      exact (writes_openWhile line cond).marked draft
  | elseBranch => exact outcome_openElse draft line
  | ifClose => exact outcome_closeIf draft line
  | forOpen var items =>
      have hFor := outcome_openFor draft line var items
      rw [marked, outcome_bind, outcome_attempt, command, hFor]
      rfl
  | loopClose => exact outcome_closeLoop draft line
  | exit code => exact (settles_exit line code).marked draft
  | background body =>
      exact (writes_background line body).marked draft
  | assign name value =>
      exact (writes_assign line name value).marked draft
  | informational name _ =>
      exact (writes_informational line name text).marked draft
  | varPrint => exact (writes_print line true _).marked draft
  | unsupported => rfl

/- A statement makes of a draft what it was said to write on its line. -/
theorem turns_statement
    (draft : Draft)
    (line : Nat)
    (command : Command) :
    (statement line command).Turns draft
      (draft.inscribeAll
        (command.events draft.blocks draft.loops line)) :=
  fun _ => ⟨line, outcome_command draft line command⟩

------------------------------------------------------------
-- Scripts
------------------------------------------------------------

/- Statements are written one after the other. -/
theorem exists_turns_statements
    (commands : List (Nat × Command))
    (draft : Draft) :
    ∃ written,
      (statements commands).Turns draft written ∧
        written.verbatim =
          (draft.addCommands commands).verbatim := by
  induction commands generalizing draft with
  | nil => exact ⟨draft, fun before => ⟨before, rfl⟩, rfl⟩
  | cons first rest ih =>
      rcases first with ⟨line, command⟩
      let after := draft.inscribeAll
        (command.events draft.blocks draft.loops line)
      -- The rest is written behind texts, not behind lines.
      have hAfter : after.verbatim =
          (draft.addCommand line command).verbatim :=
        draft.verbatim_inscribeAll _
      rcases ih after with ⟨written, hRest, hWritten⟩
      refine ⟨written,
        (turns_statement draft line command).bind hRest, ?_⟩
      rw [hWritten]
      exact Draft.verbatim_addCommands hAfter rest

/- The blocks that are still open are closed one by one. -/
theorem turns_finish
    {blocks : List Frame}
    {draft : Draft}
    (hBlocks : draft.blocks = blocks) :
    (finish blocks).Turns draft
      (draft.inscribeAll (Event.closeAll blocks)) := by
  induction blocks generalizing draft with
  | nil => exact fun before => ⟨before, rfl⟩
  | cons frame rest ih =>
      let events := Event.pop ::
        (if frame.chained then
          []
        else
          [.fail frame.line (.unclosed frame.opener)]) ++
        Event.closeFrame frame
      let after := draft.inscribeAll events
      have hFrame := Event.all_isSteady_closeFrame frame
      have hRest : after.blocks = rest := by
        rw [Draft.blocks_inscribeAll, hBlocks]
        simp only [events]
        split <;> exact Event.stackAll_of_steady hFrame rest
      have hEvents : Event.closeAll (frame :: rest) =
          events ++ Event.closeAll rest := rfl
      have hClose (line : Nat) := writes_closeFrame line frame
      intro before
      rw [finish, outcome_bind, outcome_pop?, hBlocks, hEvents,
        Draft.inscribeAll_append]
      -- Only a fault goes to the line where its block was opened.
      cases hChained : frame.chained with
      | true =>
          have hAfter : (draft.inscribe .pop).inscribeAll
              (Event.closeFrame frame) = after := by
            simp only [after, events, hChained, if_true]
            rfl
          simp only [hChained, Bool.not_true, Bool.false_eq_true,
            if_false, outcome_bind]
          rw [hClose, hAfter]
          exact ih hRest before
      | false =>
          have hAfter : ((draft.inscribe .pop).inscribe
              (.fail frame.line
                (.unclosed frame.opener))).inscribeAll
                  (Event.closeFrame frame) = after := by
            simp only [after, events, hChained,
              Bool.false_eq_true, if_false]
            rfl
          simp only [hChained, Bool.not_false, if_true,
            outcome_bind, outcome_atLine, outcome_fail]
          rw [hClose, hAfter]
          exact ih hRest frame.line

/- A script is written in one pass, and its blocks are closed. -/
theorem exists_turns_script
    (commands : List (Nat × Command))
    (draft : Draft) :
    ∃ written,
      (script commands).Turns draft written ∧
        written.verbatim =
          (draft.addCommands commands).finish.verbatim := by
  rcases exists_turns_statements commands draft with
    ⟨after, hStatements, hAfter⟩
  have hBlocks := (Draft.matches_of_verbatim hAfter).blocks
  let closers := Event.closeAll (draft.addCommands commands).blocks
  refine ⟨after.inscribeAll closers, ?_, ?_⟩
  · refine hStatements.bind fun before => ?_
    rcases turns_finish hBlocks before with ⟨line, hFinish⟩
    refine ⟨line, ?_⟩
    simp only [outcome_bind, outcome_get, hBlocks]
    exact hFinish
  · rw [Draft.verbatim_inscribeAll, Draft.verbatim_extend, hAfter,
      ← Draft.verbatim_extend]
    rfl

end Emission

end ShellToC
