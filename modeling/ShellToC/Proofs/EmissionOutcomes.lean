import ShellToC.Proofs.Emission
import ShellToC.Proofs.LineTexts

/-
  This file says what the parts of emissions make of a draft:
  how texts are written, how values are named, and how lines
  are written in the scope of their values.

  The lines of an emission are nothing but text.  So drafts
  are compared by the texts of their lines.

  Key definitions include:
    * `Draft.inscribe`
    * `Draft.verbatim`
    * `Draft.Matches`
    * `Emission.Writes`
    * `Emission.Settles`
    * `Emission.Turns`

  Main declarations:
    * `Draft.verbatim_inscribeAll`
    * `Emission.outcome_bind`
    * `Emission.outcome_value`
    * `Emission.outcome_inScope`
-/

namespace ShellToC

------------------------------------------------------------
-- Drafts of Text
------------------------------------------------------------

namespace Draft

/- What an event makes of a draft, if lines are written as text. -/
def inscribe
    (draft : Draft) : Event → Draft
  | .write extra line =>
      (line.needs.foldl require draft).write extra
        (.verbatim line.render)
  | .fail line fault =>
      (draft.write 0 (.verbatim
        (Line.marker draft.file line fault.message).render)).report
          ⟨.error, line, fault.message⟩
  | event => draft.apply event

/- What events make of a draft, if lines are written as text. -/
def inscribeAll
    (draft : Draft)
    (events : List Event) : Draft :=
  events.foldl inscribe draft

/- Write texts, each on a line of its own. -/
def typeAll
    (draft : Draft)
    (extra : Nat)
    (texts : List Text) : Draft :=
  texts.foldl (fun draft text =>
    draft.write extra (.verbatim text)) draft

/- The draft with the texts of its lines instead of the lines. -/
def verbatim
    (draft : Draft) : Draft :=
  { draft with
    rows := draft.rows.map fun row =>
      ⟨row.indent, .verbatim row.line.render⟩ }

theorem inscribeAll_append
    (draft : Draft)
    (a b : List Event) :
    draft.inscribeAll (a ++ b) =
      (draft.inscribeAll a).inscribeAll b :=
  List.foldl_append

/- The texts of lines make up the same body. -/
theorem body_verbatim
    (draft : Draft) :
    draft.verbatim.body = draft.body := by
  have hRow (row : Row) :
      Row.render draft.unit
          ⟨row.indent, .verbatim row.line.render⟩ =
        Row.render draft.unit row := rfl
  simp [body, verbatim, List.flatMap_map, hRow]

theorem verbatim_foldl_require
    (draft : Draft)
    (helpers : List Helper) :
    (helpers.foldl require draft).verbatim =
      helpers.foldl require draft.verbatim := by
  induction helpers generalizing draft with
  | nil => rfl
  | cons helper helpers ih => exact ih (draft.require helper)

theorem verbatim_write
    (draft : Draft)
    (extra : Nat)
    (line : Line) :
    (draft.write extra line).verbatim =
      (line.needs.foldl require draft.verbatim).write extra
        (.verbatim line.render) := by
  rw [← verbatim_foldl_require]
  simp [write, verbatim, Line.needs, depth]

/- One event after the other, a draft and its texts stay together. -/
theorem verbatim_apply
    (draft : Draft)
    (event : Event) :
    (draft.apply event).verbatim =
      draft.verbatim.inscribe event := by
  cases event with
  | write extra line => exact draft.verbatim_write extra line
  | fail line fault =>
      have hMark := draft.verbatim_write 0
        (.marker draft.file line fault.message)
      simp only [apply, fail, inscribe]
      rw [show draft.verbatim.file = draft.file from rfl]
      simp only [Line.needs, List.foldl_nil] at hMark
      rw [← hMark]
      rfl
  | pop =>
      rcases draft with ⟨file, unit, blocks⟩
      cases blocks <;> rfl
  | _ => rfl

theorem verbatim_extend
    (draft : Draft)
    (events : List Event) :
    (draft.extend events).verbatim =
      draft.verbatim.inscribeAll events := by
  induction events generalizing draft with
  | nil => rfl
  | cons event events ih =>
      change ((draft.apply event).extend events).verbatim = _
      rw [ih, verbatim_apply]
      rfl

theorem verbatim_inscribe
    (draft : Draft)
    (event : Event) :
    (draft.inscribe event).verbatim =
      (draft.apply event).verbatim := by
  cases event with
  | write extra line =>
      rw [inscribe, verbatim_write, verbatim_foldl_require, apply,
        verbatim_write]
      rfl
  | fail line fault =>
      have hMark := draft.verbatim_write 0
        (.verbatim
          (Line.marker draft.file line fault.message).render)
      have hLine := draft.verbatim_write 0
        (.marker draft.file line fault.message)
      have hSame := hMark.trans hLine.symm
      exact congrArg (report · ⟨.error, line, fault.message⟩) hSame
  | _ => rfl

/- Events leave the same texts, whichever way they are written. -/
theorem verbatim_inscribeAll
    (draft : Draft)
    (events : List Event) :
    (draft.inscribeAll events).verbatim =
      (draft.extend events).verbatim := by
  induction events generalizing draft with
  | nil => rfl
  | cons event events ih =>
      calc ((draft.inscribe event).inscribeAll events).verbatim
          = ((draft.inscribe event).extend events).verbatim :=
            ih (draft.inscribe event)
        _ = (draft.apply event).verbatim.inscribeAll events := by
            rw [verbatim_extend, verbatim_inscribe]
        _ = ((draft.apply event).extend events).verbatim :=
            (verbatim_extend _ events).symm

/- What drafts with the same texts have in common. -/
structure Matches
    (written draft : Draft) : Prop where
  file : written.file = draft.file
  unit : written.unit = draft.unit
  blocks : written.blocks = draft.blocks
  loops : written.loops = draft.loops
  usage : written.usage = draft.usage
  body : written.body = draft.body
  diagnostics : written.diagnostics = draft.diagnostics

theorem matches_of_verbatim
    {written draft : Draft}
    (h : written.verbatim = draft.verbatim) :
    written.Matches draft := by
  have hPart {γ : Type} (part : Draft → γ)
      (hText : ∀ d : Draft, part d.verbatim = part d) :
      part written = part draft := by
    rw [← hText written, h, hText]
  exact ⟨hPart Draft.file fun _ => rfl,
    hPart Draft.unit fun _ => rfl,
    hPart Draft.blocks fun _ => rfl,
    hPart Draft.loops fun _ => rfl,
    hPart Draft.usage fun _ => rfl,
    hPart Draft.body body_verbatim,
    hPart Draft.diagnostics fun _ => rfl⟩

theorem blocks_inscribeAll
    (draft : Draft)
    (events : List Event) :
    (draft.inscribeAll events).blocks =
      Event.stackAll draft.blocks events := by
  have hSame := matches_of_verbatim
    (draft.verbatim_inscribeAll events)
  rw [hSame.blocks, blocks_extend]

/- Helpers that were not needed before are noted in the log. -/
theorem exists_newcomers
    (draft : Draft)
    (helpers : List Helper) :
    ∃ newcomers,
      (draft.usage.requireAll helpers).needed =
          draft.usage.needed ++ newcomers ∧
        (helpers.foldl require draft).log =
          draft.log ++ newcomers.map Helper.record := by
  induction helpers generalizing draft with
  | nil => exact ⟨[], by simp [Usage.requireAll], by simp⟩
  | cons helper helpers ih =>
      rcases ih (draft.require helper) with ⟨more, hNeeded, hLog⟩
      let first := draft.usage.newcomers helper
      refine ⟨first ++ more, ?_, ?_⟩
      · rw [← List.append_assoc]
        exact hNeeded
      · have hFirst : (draft.require helper).log =
            draft.log ++ first.map Helper.record := rfl
        rw [List.foldl_cons, hLog, hFirst]
        exact Array.ext' (by simp)

/- Needing helpers all at once leaves what needing each would leave. -/
theorem withUsage_requireAll
    (draft : Draft)
    (helpers : List Helper) :
    draft.withUsage (draft.usage.requireAll helpers) =
      helpers.foldl require draft := by
  rcases draft.exists_newcomers helpers with
    ⟨newcomers, hNeeded, hLog⟩
  rw [foldl_require_eq, withUsage, hNeeded, List.drop_left, hLog]

/- Texts may be written before or after helpers are needed. -/
theorem foldl_require_write
    (draft : Draft)
    (helpers : List Helper)
    (extra : Nat)
    (text : Text) :
    helpers.foldl require (draft.write extra (.verbatim text)) =
      (helpers.foldl require draft).write extra
        (.verbatim text) := by
  induction helpers generalizing draft with
  | nil => rfl
  | cons helper helpers ih => exact ih (draft.require helper)

/- Helpers are needed before or after a loop is counted. -/
theorem foldl_require_countLoop
    (draft : Draft)
    (helpers : List Helper) :
    helpers.foldl require (draft.inscribe .countLoop) =
      (helpers.foldl require draft).inscribe .countLoop := by
  induction helpers generalizing draft with
  | nil => rfl
  | cons helper helpers ih => exact ih (draft.require helper)

/- Lines are written as text after all of their helpers are needed. -/
theorem inscribeAll_lines
    (draft : Draft)
    (extra : Nat)
    (ls : List Line) :
    draft.inscribeAll (Event.lines extra ls) =
      ((ls.flatMap Line.needs).foldl require draft).typeAll extra
        (ls.map Line.render) := by
  induction ls generalizing draft with
  | nil => rfl
  | cons line ls ih =>
      have hRest := ih ((line.needs.foldl require draft).write
        extra (.verbatim line.render))
      rw [foldl_require_write, ← List.foldl_append] at hRest
      exact hRest

theorem inscribeAll_inScope
    (draft : Draft)
    (ls : List Line) :
    draft.inscribeAll (Event.inScope ls) =
      ((((ls.flatMap Line.needs).foldl require draft).write 0
        (.verbatim "\x7b")).typeAll 1 (ls.map Line.render)).write
          0 (.verbatim "\x7d") := by
  rw [Event.inScope, inscribeAll_append]
  change ((draft.write 0 (.verbatim "\x7b")).inscribeAll
    (Event.lines 1 ls)).write 0 (.verbatim "\x7d") = _
  rw [inscribeAll_lines, foldl_require_write]

end Draft

------------------------------------------------------------
-- Outcomes
------------------------------------------------------------

namespace Emission

variable {α β : Type}

@[simp] theorem outcome_pure
    (value : α)
    (pen : Pen) :
    (pure value : Emission α).outcome pen = (.ok value, pen) := rfl

@[simp] theorem outcome_throw
    (fault : Fault)
    (pen : Pen) :
    (throw fault : Emission α).outcome pen =
      (.error fault, pen) := rfl

/- An emission goes on with what was done before, unless that failed. -/
theorem outcome_bind
    (m : Emission α)
    (next : α → Emission β)
    (pen : Pen) :
    (m >>= next).outcome pen =
      match m.outcome pen with
      | (.ok value, after) => (next value).outcome after
      | (.error fault, after) => (.error fault, after) := by
  have hRun : (m >>= next).outcome pen =
      ((StateT.run (ExceptT.run m) pen) |> fun result =>
        (ExceptT.bindCont next result.1).run result.2) := rfl
  rw [hRun, outcome]
  generalize StateT.run (ExceptT.run m) pen = result
  rcases result with ⟨value, after⟩
  cases value <;> rfl

@[simp] theorem outcome_get
    (pen : Pen) :
    (get : Emission Pen).outcome pen = (.ok pen, pen) := rfl

@[simp] theorem outcome_update
    (f : Draft → Draft)
    (pen : Pen) :
    (update f).outcome pen =
      (.ok (), { pen with draft := f pen.draft }) := rfl

@[simp] theorem outcome_atLine
    (line : Nat)
    (pen : Pen) :
    (atLine line).outcome pen =
      (.ok (), { pen with line := line }) := rfl

@[simp] theorem outcome_emit
    (text : Text)
    (pen : Pen) :
    (emit text).outcome pen =
      (.ok (), { pen with
        draft := pen.draft.write pen.scope (.verbatim text) }) :=
  rfl

@[simp] theorem outcome_enter
    (pen : Pen) :
    enter.outcome pen =
      (.ok (), { pen with scope := pen.scope + 1 }) := rfl

@[simp] theorem outcome_leave
    (pen : Pen) :
    leave.outcome pen =
      (.ok (), { pen with scope := pen.scope - 1 }) := rfl

@[simp] theorem outcome_emitNested
    (text : Text)
    (pen : Pen) :
    (emitNested text).outcome pen =
      (.ok (), { pen with
        draft := pen.draft.write (pen.scope + 1)
          (.verbatim text) }) := rfl

@[simp] theorem outcome_require
    (helper : Helper)
    (pen : Pen) :
    (require helper).outcome pen =
      (.ok (), { pen with draft := pen.draft.require helper }) :=
  rfl

@[simp] theorem outcome_push
    (frame : Frame)
    (pen : Pen) :
    (push frame).outcome pen =
      (.ok (), { pen with draft := pen.draft.push frame }) := rfl

@[simp] theorem outcome_takeLoop
    (pen : Pen) :
    takeLoop.outcome pen =
      (.ok (pen.draft.loops + 1), { pen with
        draft := pen.draft.inscribe .countLoop }) := rfl

@[simp] theorem outcome_fail
    (fault : Fault)
    (draft : Draft)
    (line : Nat) :
    (fail fault).outcome ⟨draft, 0, line⟩ =
      (.ok (), ⟨draft.inscribe (.fail line fault), 0, line⟩) := rfl

@[simp] theorem outcome_attempt
    (m : Emission α)
    (pen : Pen) :
    (attempt m).outcome pen =
      (.ok (m.outcome pen).1, (m.outcome pen).2) := rfl

@[simp] theorem outcome_emitAll
    (texts : List Text)
    (draft : Draft)
    (scope line : Nat) :
    (emitAll texts).outcome ⟨draft, scope, line⟩ =
      (.ok (), ⟨draft.typeAll scope texts, scope, line⟩) := by
  induction texts generalizing draft with
  | nil => rfl
  | cons text texts ih =>
      rw [emitAll, outcome_bind, outcome_emit]
      exact ih _

/- Give what is granted, once its helpers are needed. -/
def granted
    (pen : Pen) :
    Except Fault (α × List Helper) → Except Fault α × Pen
  | .ok (value, needs) =>
      (.ok value, { pen with
        draft := needs.foldl Draft.require pen.draft })
  | .error fault => (.error fault, pen)

theorem outcome_request
    {request : HelperRequest Text}
    {result : Except Fault (Text × List Helper)}
    (h : request.Grants result)
    (pen : Pen) :
    (Emission.request request).outcome pen =
      granted pen result := by
  have hRun : (Emission.request request).outcome pen =
      ((request.outcome pen.draft.usage).1,
        { pen with
          draft := pen.draft.withUsage
            (request.outcome pen.draft.usage).2 }) := rfl
  rw [hRun, h pen.draft.usage]
  cases result with
  | ok written => simp only [Draft.withUsage_requireAll, granted]
  | error fault =>
      have hSame := pen.draft.withUsage_requireAll []
      simp only [granted]
      exact congrArg
        (fun draft => (_, { pen with draft := draft })) hSame

/-
  The emission writes what events write on a line, whatever
  the draft is.
-/
def Writes
    (line : Nat)
    (m : Emission Unit)
    (events : List Event) : Prop :=
  ∀ draft, m.outcome ⟨draft, 0, line⟩ =
    (.ok (), ⟨draft.inscribeAll events, 0, line⟩)

/-
  The emission writes what events write on a line, or stops
  with a fault before anything is written.
-/
def Settles
    (line : Nat)
    (m : Emission Unit)
    (result : Except Fault (List Event)) : Prop :=
  ∀ draft, m.outcome ⟨draft, 0, line⟩ =
    match result with
    | .ok events =>
        (.ok (), ⟨draft.inscribeAll events, 0, line⟩)
    | .error fault => (.error fault, ⟨draft, 0, line⟩)

/-
  The emission makes one draft of another and comes to an
  end, in the scope where it began.  The line that was in
  hand before does not matter.
-/
def Turns
    (m : Emission Unit)
    (draft written : Draft) : Prop :=
  ∀ before, ∃ line,
    m.outcome ⟨draft, 0, before⟩ = (.ok (), ⟨written, 0, line⟩)

theorem Turns.bind
    {m n : Emission Unit}
    {draft after written : Draft}
    (hm : m.Turns draft after)
    (hn : n.Turns after written) :
    Turns (do m; n) draft written := by
  intro before
  rcases hm before with ⟨mid, hMid⟩
  rcases hn mid with ⟨line, hLine⟩
  refine ⟨line, ?_⟩
  rw [outcome_bind, hMid]
  exact hLine

/- A line is written as its text, once its helpers are needed. -/
theorem outcome_emit_line
    {l : Line}
    {text : Text}
    (hText : l.render = text)
    (draft : Draft)
    (line : Nat) :
    (emit text).outcome
        ⟨l.needs.foldl Draft.require draft, 0, line⟩ =
      (.ok (), ⟨draft.inscribeAll [.write 0 l], 0, line⟩) := by
  rw [outcome_emit, ← hText]
  rfl

/- A line without helpers is written as its text. -/
theorem writes_emit
    {l : Line}
    (hNeeds : l.needs = [])
    {text : Text}
    (hText : l.render = text)
    (line : Nat) :
    Writes line (emit text) [.write 0 l] := by
  intro draft
  have hLine := outcome_emit_line hText draft line
  rwa [hNeeds] at hLine

theorem Writes.bind
    {line : Nat}
    {m n : Emission Unit}
    {a b : List Event}
    (hm : Writes line m a)
    (hn : Writes line n b) :
    Writes line (do m; n) (a ++ b) := by
  intro draft
  rw [outcome_bind, hm draft, Draft.inscribeAll_append]
  exact hn _

theorem Writes.marked
    {line : Nat}
    {m : Emission Unit}
    {events : List Event}
    (h : Writes line m events) :
    Writes line (Emission.marked m) events := by
  intro draft
  rw [Emission.marked, outcome_bind, outcome_attempt, h draft]
  rfl

/- A fault takes the place of what would have been written. -/
theorem Settles.marked
    {line : Nat}
    {m : Emission Unit}
    {result : Except Fault (List Event)}
    (h : Settles line m result) :
    Writes line (Emission.marked m)
      (Event.orFail line result) := by
  intro draft
  rw [Emission.marked, outcome_bind, outcome_attempt, h draft]
  cases result <;> rfl

end Emission

------------------------------------------------------------
-- Values
------------------------------------------------------------

namespace Value

/- The helpers that a value calls. -/
def needs : Value → List Helper
  | .borrowed e => e.needs
  | .built _ call => call.buildNeeds

/- The texts of a value. -/
def piece : Value → Emission.Piece
  | .borrowed e => ⟨e.render, none⟩
  | .built temp call =>
      ⟨temp.name, some (Line.declareBuilt temp call).render⟩

@[simp] theorem expr_piece
    (value : Value) :
    value.piece.expr = value.expr.render := by
  cases value <;> rfl

/- A value is called where it is declared, or where it is used. -/
theorem needs_eq
    (value : Value) :
    value.needs =
      value.declarations.flatMap Line.needs ++
        value.expr.needs := by
  cases value <;> simp [needs, declarations, expr, Line.needs,
    StringExpr.needs]

end Value

/- The parts with a separator before all but the first. -/
theorem Text.joinWith_cons
    (separator first : Text)
    (parts : List Text) :
    joinWith separator (first :: parts) =
      first ++ parts.flatMap (separator ++ ·) := by
  induction parts generalizing first with
  | nil => simp [joinWith]
  | cons part parts ih =>
      have hRest := ih part
      rw [joinWith] at hRest ⊢
      rw [List.intercalate_cons_cons, hRest]
      simp

namespace Emission

theorem outcome_argument
    (arg : Argument)
    (draft : Draft)
    (scope line : Nat) :
    (argument arg).outcome ⟨draft, scope, line⟩ =
      (.ok (FormatArg.ofArgument arg).render,
        ⟨(FormatArg.ofArgument arg).needs.foldl Draft.require
          draft, scope, line⟩) := by
  cases arg with
  | var name =>
      simp only [FormatArg.ofArgument, FormatArg.render,
        StringExpr.render_variable]
      rfl
  | status => rfl
  | backgroundPid => rfl

theorem outcome_arguments
    (call : Text)
    (args : List Argument)
    (draft : Draft)
    (scope line : Nat) :
    (arguments call args).outcome ⟨draft, scope, line⟩ =
      (.ok (call ++ (args.map fun arg =>
          (FormatArg.ofArgument arg).render).flatMap
            (Text.ofString ", " ++ ·)),
        ⟨(args.flatMap fun arg =>
          (FormatArg.ofArgument arg).needs).foldl Draft.require
            draft, scope, line⟩) := by
  induction args generalizing call draft with
  | nil => simp [arguments]
  | cons arg args ih =>
      rw [arguments, outcome_bind, outcome_argument]
      simp [ih]

/- The call of a function that takes a format is written as a whole. -/
theorem outcome_formatCall
    (function format : Text)
    (args : List Argument)
    (draft : Draft)
    (scope line : Nat) :
    (formatCall function format args).outcome
        ⟨draft, scope, line⟩ =
      (.ok ((FormatCall.ofTemplate format args).render function),
        ⟨(FormatCall.ofTemplate format args).argNeeds.foldl
          Draft.require draft, scope, line⟩) := by
  rw [formatCall, outcome_bind, outcome_arguments]
  simp [FormatCall.render, FormatCall.ofTemplate,
    FormatCall.argNeeds, callText, Text.joinWith_cons,
    List.flatMap_map, Function.comp_def]

theorem outcome_build
    (temp : Temporary)
    (format : Text)
    (args : List Argument)
    (draft : Draft)
    (scope line : Nat) :
    (build temp.name format args).outcome ⟨draft, scope, line⟩ =
      (.ok (Value.built temp
          (.ofTemplate format args)).piece,
        ⟨(FormatCall.ofTemplate format args).buildNeeds.foldl
          Draft.require draft, scope, line⟩) := by
  rw [build, outcome_bind, outcome_require]
  simp only
  rw [outcome_bind, outcome_formatCall]
  rfl

/- A value is written with its helpers. -/
theorem outcome_value
    (temp : Temporary)
    (template : Template)
    (draft : Draft)
    (scope line : Nat) :
    (value temp.name template).outcome ⟨draft, scope, line⟩ =
      (.ok (Value.ofTemplate temp template).piece,
        ⟨(Value.ofTemplate temp template).needs.foldl
          Draft.require draft, scope, line⟩) := by
  cases template with
  | literal text => rfl
  | format format args =>
      -- All but a lone variable is built.
      have hBuilt
          (hValue : Value.ofTemplate temp (.format format args) =
            .built temp (.ofTemplate format args))
          (hEmission : value temp.name (.format format args) =
            build temp.name format args) :
          (value temp.name (.format format args)).outcome
              ⟨draft, scope, line⟩ =
            (.ok (Value.ofTemplate temp
                (.format format args)).piece,
              ⟨(Value.ofTemplate temp
                (.format format args)).needs.foldl
                  Draft.require draft, scope, line⟩) := by
        rw [hValue, hEmission, outcome_build]
        rfl
      rcases args with _ | ⟨arg, _ | ⟨next, rest⟩⟩
      · exact hBuilt rfl rfl
      · cases arg with
        | var name =>
            by_cases hFormat : format = "%s"
            · subst hFormat
              have hValue : Value.ofTemplate temp
                  (.format "%s" [.var name]) =
                    .borrowed (.variable name) := by
                simp [Value.ofTemplate, Template.single?,
                  Argument.directive]
              rw [hValue, Value.piece, StringExpr.render_variable]
              simp only [value, if_true]
              rfl
            · refine hBuilt ?_ ?_
              · simp [Value.ofTemplate, Template.single?,
                  Argument.directive, hFormat]
              · simp [value, hFormat]
        | status =>
            refine hBuilt ?_ rfl
            simp only [Value.ofTemplate, Template.single?]
            split <;> simp_all
        | backgroundPid =>
            refine hBuilt ?_ rfl
            simp only [Value.ofTemplate, Template.single?]
            split <;> simp_all
      · exact hBuilt rfl (by cases arg <;> rfl)

------------------------------------------------------------
-- Scopes
------------------------------------------------------------

/- The declarations among the texts of values. -/
theorem filterMap_declaration_piece
    (values : List Value) :
    ((values.map Value.piece).filter
        (·.declaration.isSome)).filterMap Piece.declaration =
      (values.flatMap Value.declarations).map Line.render := by
  induction values with
  | nil => rfl
  | cons value values ih =>
      cases value with
      | borrowed e => exact ih
      | built temp call =>
          exact congrArg
            ((Line.declareBuilt temp call).render :: ·) ih

/- What frees the values that are built. -/
theorem map_free_piece
    (values : List Value) :
    ((values.map Value.piece).filter
        (·.declaration.isSome)).map
          (fun value => Text.ofString "free(" ++ value.expr ++ ");") =
      (values.flatMap Value.releases).map Line.render := by
  induction values with
  | nil => rfl
  | cons value values ih =>
      cases value with
      | borrowed e => exact ih
      | built temp call =>
          rw [List.flatMap_cons, List.map_append, ← ih,
            Value.releases, List.map_singleton, Line.render_free]
          rfl

theorem isEmpty_piece
    (values : List Value) :
    ((values.map Value.piece).filter
        (·.declaration.isSome)).isEmpty =
      (values.flatMap Value.declarations).isEmpty := by
  induction values with
  | nil => rfl
  | cons value values ih =>
      cases value with
      | borrowed e => exact ih
      | built temp call => rfl

/- To free values takes no helpers. -/
theorem needs_releases
    (values : List Value) :
    (values.flatMap Value.releases).flatMap Line.needs = [] := by
  rw [List.flatMap_eq_nil_iff]
  intro line hLine
  rcases List.mem_flatMap.mp hLine with ⟨value, -, hLine⟩
  cases value with
  | borrowed e => cases hLine
  | built temp call =>
      rw [List.mem_singleton.mp hLine]
      rfl

/-
  Lines are written in the scope of their values, if all of
  their helpers have been needed by then.
-/
theorem outcome_inScope
    (values : List Value)
    (body : List Line)
    (force : Bool)
    (draft : Draft)
    (line : Nat) :
    let written := values.flatMap Value.declarations ++ body
    (inScope (values.map Value.piece) (body.map Line.render)
        force).outcome
        ⟨(written.flatMap Line.needs).foldl Draft.require draft,
          0, line⟩ =
      (.ok (), ⟨draft.inscribeAll
        (if force then
          Event.withValuesInScope values body
        else
          Event.withValues values body), 0, line⟩) := by
  intro written
  -- Of all lines in the scope, only those that free need nothing.
  let ls := written ++ values.flatMap Value.releases
  have hNeeds : ls.flatMap Line.needs =
      written.flatMap Line.needs := by
    rw [List.flatMap_append, needs_releases, List.append_nil]
  have hRender : ls.map Line.render =
      (values.flatMap Value.declarations).map Line.render ++
        body.map Line.render ++
        (values.flatMap Value.releases).map Line.render := by
    rw [List.map_append, List.map_append]
  have hInside := draft.inscribeAll_inScope ls
  rw [hNeeds, hRender] at hInside
  simp only [inScope, filterMap_declaration_piece, map_free_piece,
    isEmpty_piece]
  split
  next hNone =>
    rw [Bool.and_eq_true] at hNone
    have hForce : force = false := by simpa using hNone.2
    have hBody : written = body := by
      simp [written, List.isEmpty_iff.mp hNone.1]
    rw [hForce, hBody, outcome_emitAll, ← Draft.inscribeAll_lines,
      Event.withValues, if_pos hNone.1]
    rfl
  next hSome =>
    have hEvents : (if force then
          Event.withValuesInScope values body
        else
          Event.withValues values body) = Event.inScope ls := by
      cases force with
      | true => rfl
      | false =>
          have hBuilt : ¬ (values.flatMap
              Value.declarations).isEmpty = true := by
            simpa using hSome
          exact if_neg hBuilt
    rw [hEvents, hInside]
    simp only [outcome_bind, outcome_emit, outcome_enter,
      outcome_emitAll, outcome_leave]
    simp only [Draft.typeAll, List.foldl_append]

/- The lines behind a value, with the helpers that they need besides. -/
theorem outcome_inScope_value
    (value : Value)
    (body : List Line)
    (helpers : List Helper)
    (hNeeds : body.flatMap Line.needs =
      value.expr.needs ++ helpers)
    {texts : List Text}
    (hTexts : body.map Line.render = texts)
    (force : Bool)
    (draft : Draft)
    (line : Nat) :
    (inScope [value.piece] texts force).outcome
        ⟨helpers.foldl Draft.require
          (value.needs.foldl Draft.require draft), 0, line⟩ =
      (.ok (), ⟨draft.inscribeAll
        (if force then
          Event.withValuesInScope [value] body
        else
          Event.withValues [value] body), 0, line⟩) := by
  have hScope := outcome_inScope [value] body force draft line
  have hAll : ([value].flatMap Value.declarations ++
      body).flatMap Line.needs = value.needs ++ helpers := by
    rw [List.flatMap_append, hNeeds, List.flatMap_singleton,
      value.needs_eq, List.append_assoc]
  simp only [hAll, hTexts, List.foldl_append] at hScope
  exact hScope

end Emission

end ShellToC
