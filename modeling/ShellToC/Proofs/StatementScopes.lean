import ShellToC.Proofs.OwnScopes
import ShellToC.Proofs.Quiet

/-
  This file shows that statements other than the keywords of
  blocks leave the open scopes as they found them: what they
  declare lies in a scope of their own, and this scope frees
  whatever it holds before it is closed.

  Key definitions include:
    * `Event.writtenAll`
    * `Value.owners`
    * `Value.AreApart`
    * `Event.Keeps`

  Main declarations:
    * `Event.map_line_rowsAll`
    * `Event.keeps_withValuesInScope`
    * `Event.keeps_condition`
    * `Command.keeps_events`
-/

namespace ShellToC

------------------------------------------------------------
-- Written Lines
------------------------------------------------------------

namespace Event

/- The lines that an event writes. -/
def written
    (file : Text) : Event → List Line
  | .write _ line => [line]
  | .fail line fault => [.marker file line fault.message]
  | _ => []

/- The lines that events write. -/
def writtenAll
    (file : Text)
    (events : List Event) : List Line :=
  events.flatMap (written file)

@[simp] theorem writtenAll_nil
    (file : Text) :
    writtenAll file [] = [] := rfl

@[simp] theorem writtenAll_cons
    (file : Text)
    (event : Event)
    (events : List Event) :
    writtenAll file (event :: events) =
      event.written file ++ writtenAll file events := rfl

@[simp] theorem writtenAll_append
    (file : Text)
    (a b : List Event) :
    writtenAll file (a ++ b) =
      writtenAll file a ++ writtenAll file b :=
  List.flatMap_append

@[simp] theorem writtenAll_lines
    (file : Text)
    (extra : Nat)
    (ls : List Line) :
    writtenAll file (lines extra ls) = ls := by
  induction ls with
  | nil => rfl
  | cons line ls ih => exact congrArg (line :: ·) ih

/- The lines of the rows are the written ones. -/
theorem map_line_rowsAll
    (file : Text)
    (blocks : List Frame)
    (events : List Event) :
    (rowsAll file blocks events).map Row.line =
      writtenAll file events := by
  induction events generalizing blocks with
  | nil => rfl
  | cons event events ih =>
      rw [rowsAll, List.map_append, ih, writtenAll_cons]
      cases event <;> rfl

end Event

------------------------------------------------------------
-- Values of One Statement
------------------------------------------------------------

namespace Value

/- The variable that the value is built in. -/
def temps : Value → List Temporary
  | .borrowed _ => []
  | .built temp _ => [temp]

/- The value makes no use of other variables. -/
def isClosed : Value → Bool
  | .borrowed e => e.locals.isEmpty
  | .built _ call => call.locals.isEmpty

/- The variables that values are built in. -/
def owners
    (values : List Value) : List Local :=
  (values.flatMap temps).map .temporary

/- The places that values are built in. -/
def places
    (values : List Value) : List HeapPlace :=
  (values.flatMap temps).map fun temp => ⟨.temporary temp, none⟩

theorem locals_expr
    {value : Value}
    (h : value.isClosed = true) :
    value.expr.locals = owners [value] := by
  cases value with
  | borrowed e =>
      rw [isClosed, List.isEmpty_iff] at h
      exact h
  | built temp call => rfl

end Value

theorem FormatCall.locals_ofTemplate
    (text : Text)
    (args : List Argument) :
    (FormatCall.ofTemplate text args).locals = [] := by
  simp only [FormatCall.ofTemplate, FormatCall.locals,
    List.flatMap_map, List.flatMap_eq_nil_iff]
  intro arg _
  cases arg <;> rfl

namespace Value

theorem isClosed_ofTemplate
    (temp : Temporary)
    (template : Template) :
    (ofTemplate temp template).isClosed = true := by
  unfold ofTemplate
  split
  · rfl
  · split
    · rfl
    · rw [isClosed, FormatCall.locals_ofTemplate]
      rfl

theorem temps_ofTemplate_subset
    (temp : Temporary)
    (template : Template) :
    (ofTemplate temp template).temps.Sublist [temp] := by
  cases hValue : ofTemplate temp template with
  | borrowed e => simp [temps]
  | built other call =>
      unfold ofTemplate at hValue
      split at hValue
      · cases hValue
      · split at hValue
        · cases hValue
        · cases hValue
          exact List.Sublist.refl _

/-
  The values of a statement: each one is built in a variable
  of its own.
-/
structure AreApart
    (values : List Value) : Prop where
  closed : ∀ value ∈ values, value.isClosed = true
  nodup : (values.flatMap temps).Nodup

theorem areApart_ofTemplate
    (temp : Temporary)
    (template : Template) :
    AreApart [ofTemplate temp template] := by
  constructor
  · intro value hValue
    rw [List.mem_singleton.mp hValue]
    exact isClosed_ofTemplate temp template
  · rw [List.flatMap_singleton]
    exact (temps_ofTemplate_subset temp template).nodup
      (by simp)

/- The declarations of values bring their variables into a scope. -/
theorem runs_declarations
    {values : List Value}
    (h : AreApart values)
    {scope final : Scope}
    (hNew : ∀ l ∈ owners values, l ∉ scope.names)
    (hGone : scope.gone = [])
    {lines : List Line}
    (hRest : Scope.Runs ⟨scope.names ++ owners values,
      scope.held ++ places values, []⟩ lines final) :
    Scope.Runs scope
      (values.flatMap declarations ++ lines) final := by
  induction values generalizing scope with
  | nil =>
      rcases scope with ⟨names, held, gone⟩
      cases hGone
      simpa [owners, places] using hRest
  | cons value values ih =>
      rcases h with ⟨hClosed, hNodup⟩
      rw [List.forall_mem_cons] at hClosed
      cases value with
      | borrowed e => exact ih ⟨hClosed.2, hNodup⟩ hNew hGone hRest
      | built temp call =>
          have hCall : call.locals = [] := by
            simpa [isClosed] using hClosed.1
          rw [List.flatMap_cons, temps, List.singleton_append,
            List.nodup_cons] at hNodup
          refine .declare rfl rfl
            (hNew _ List.mem_cons_self) ?_ hGone ?_
          · simp [Line.locals, hCall]
          · refine ih ⟨hClosed.2, hNodup.2⟩ ?_ rfl ?_
            · intro l hl hName
              rcases List.mem_append.mp hName with hOld | hSame
              · exact hNew l (List.mem_cons_of_mem _ hl) hOld
              · rcases List.mem_map.mp hl with
                  ⟨other, hOther, rfl⟩
                cases List.mem_singleton.mp hSame
                exact hNodup.1 hOther
            · rw [List.append_assoc, List.append_assoc]
              exact hRest

/- The releases of values free all that a scope holds. -/
theorem runs_releases
    {values : List Value}
    (hNodup : (values.flatMap temps).Nodup)
    {scope : Scope}
    (hHeld : scope.held = places values) :
    ∃ final, Scope.Runs scope
        (values.flatMap releases) final ∧
      final.held = [] := by
  induction values generalizing scope with
  | nil => exact ⟨scope, .nil scope, hHeld⟩
  | cons value values ih =>
      cases value with
      | borrowed e => exact ih hNodup hHeld
      | built temp call =>
          rw [List.flatMap_cons, temps, List.singleton_append,
            List.nodup_cons] at hNodup
          have hPlaces : scope.held =
              ⟨.temporary temp, none⟩ :: places values := hHeld
          have hNew : ⟨.temporary temp, none⟩ ∉
              places values := by
            simpa [places] using hNodup.1
          have hFreed : (Line.free temp).freed? =
              some ⟨.temporary temp, none⟩ := rfl
          have hRest : (scope.take (.free temp)).held =
              places values := by
            rw [Scope.take_of_freed? hFreed hPlaces hNew]
          rcases ih hNodup.2 hRest with ⟨final, hFinal, hEmpty⟩
          refine ⟨final, ?_, hEmpty⟩
          refine .free rfl ?_ hFinal
          rw [hHeld]
          exact List.mem_cons_self

end Value

------------------------------------------------------------
-- Events That Keep the Scopes
------------------------------------------------------------

namespace Event

/- Between statements, the events leave the scopes as they are. -/
def Keeps
    (file : Text)
    (events : List Event) : Prop :=
  ∀ n state, Scoping.OnlyLoops n state →
    state.Passes (writtenAll file events) state

variable {file : Text}

theorem keeps_nil : Keeps file [] :=
  fun _ state _ => .nil state

theorem Keeps.append
    {a b : List Event}
    (ha : Keeps file a)
    (hb : Keeps file b) :
    Keeps file (a ++ b) := by
  intro n state hLoops
  rw [writtenAll_append]
  exact (ha n state hLoops).append (hb n state hLoops)

/- Lines without variables keep the scopes. -/
theorem keeps_lines
    {extra : Nat}
    {ls : List Line}
    (h : ∀ line ∈ ls, line.onlyUses = true ∧ line.locals = []) :
    Keeps file (lines extra ls) := by
  intro n state hLoops
  rw [writtenAll_lines]
  induction ls with
  | nil => exact .nil state
  | cons line ls ih =>
      rw [List.forall_mem_cons] at h
      exact (Scoping.Passes.bare hLoops.nonempty h.1.1
        h.1.2).append (ih h.2)

theorem keeps_write
    {extra : Nat}
    {line : Line}
    (hLine : line.onlyUses = true)
    (hLocals : line.locals = []) :
    Keeps file [.write extra line] := by
  have hLines : ∀ other ∈ [line],
      other.onlyUses = true ∧ other.locals = [] := by
    simp [hLine, hLocals]
  exact keeps_lines hLines

theorem keeps_fail
    (line : Nat)
    (fault : Fault) :
    Keeps file [.fail line fault] := by
  intro n state hLoops
  exact Scoping.Passes.bare hLoops.nonempty
    (show Line.onlyUses (.marker _ _ _) = true from rfl) rfl

/- A scope that frees what it holds keeps the others. -/
theorem keeps_inScope
    {ls : List Line}
    {final : Scope}
    (h : Scope.Runs {} ls final)
    (hHeld : final.held = []) :
    Keeps file (inScope ls) := by
  intro n state hLoops
  have hOpen : state.Passes [.openScope] (state.enter {}) :=
    .opening hLoops.nonempty rfl rfl rfl (by simp [Line.locals])
  have hLines := h.passes (by simp) hLoops
  have hClose : (state.enter final).Passes [.close] state :=
    .closing hLoops.nonempty hHeld
  rw [inScope, writtenAll_append, writtenAll_cons,
    writtenAll_lines]
  exact (hOpen.append hLines).append hClose

/-
  With its values declared, a statement may write what it
  likes in its scope, if it frees all but the values.
-/
theorem keeps_withValuesInScope
    {values : List Value}
    (h : Value.AreApart values)
    {body : List Line}
    {final : Scope}
    (hBody : Scope.Runs
      ⟨Value.owners values, Value.places values, []⟩ body final)
    (hHeld : final.held = Value.places values) :
    Keeps file (withValuesInScope values body) := by
  rcases Value.runs_releases h.nodup hHeld with
    ⟨last, hReleases, hEmpty⟩
  have hRuns : Scope.Runs {} (values.flatMap
      Value.declarations ++ (body ++
        values.flatMap Value.releases)) last :=
    Value.runs_declarations h (by simp) rfl
      (hBody.append hReleases)
  rw [withValuesInScope, List.append_assoc]
  exact keeps_inScope hRuns hEmpty

/- A statement that only uses its values, in a scope or without. -/
theorem keeps_withValues
    {values : List Value}
    (h : Value.AreApart values)
    {body : List Line}
    (hBody : ∀ line ∈ body, line.onlyUses = true ∧
      ∀ l ∈ line.locals, l ∈ Value.owners values) :
    Keeps file (withValues values body) := by
  unfold withValues
  split
  · rename_i hNone
    have hOwners : Value.owners values = [] := by
      rw [List.isEmpty_iff, List.flatMap_eq_nil_iff] at hNone
      rw [Value.owners, List.map_eq_nil_iff,
        List.flatMap_eq_nil_iff]
      intro value hValue
      have hDeclared := hNone value hValue
      cases value with
      | borrowed e => rfl
      | built temp call => cases hDeclared
    apply keeps_lines
    intro line hLine
    refine ⟨(hBody line hLine).1, ?_⟩
    have hLocals := (hBody line hLine).2
    rw [hOwners] at hLocals
    exact List.eq_nil_iff_forall_not_mem.mpr fun l hl =>
      List.not_mem_nil (hLocals l hl)
  · have hRuns : Scope.Runs
        ⟨Value.owners values, Value.places values, []⟩ body
        ⟨Value.owners values, Value.places values, []⟩ := by
      induction body with
      | nil => exact .nil _
      | cons line body ih =>
          rw [List.forall_mem_cons] at hBody
          exact .use hBody.1.1 hBody.1.2 rfl (ih hBody.2)
    exact keeps_withValuesInScope h hRuns rfl

end Event

------------------------------------------------------------
-- Variables in Conditions
------------------------------------------------------------

theorem Operand.locals_stringExpr?
    {operand : Operand}
    {e : StringExpr}
    (h : operand.stringExpr? = some e) :
    e.locals = [] := by
  unfold stringExpr? at h
  split at h
  · cases h
    rfl
  · cases h
  · cases h
  · cases h
    rfl

theorem Operand.locals_intExpr
    (operand : Operand) :
    operand.intExpr.locals = [] := by
  unfold intExpr
  repeat' split
  all_goals rfl

theorem Operand.locals_nonemptyExpr
    (operand : Operand) :
    operand.nonemptyExpr.locals = [] := by
  unfold nonemptyExpr
  split
  all_goals rfl

theorem Comparison.locals_compare
    (comparison : Comparison)
    (left right : Operand) :
    (comparison.compare left right).locals = [] := by
  unfold compare
  split
  · rename_i hLeft hRight
    rw [BoolExpr.locals, Operand.locals_stringExpr? hLeft,
      Operand.locals_stringExpr? hRight]
    rfl
  · rw [BoolExpr.locals, left.locals_intExpr,
      right.locals_intExpr]
    rfl

theorem Comparison.locals_ofWords
    {comparison : Comparison}
    {left right : Text}
    {e : BoolExpr}
    (h : comparison.ofWords left right = .ok e) :
    e.locals = [] := by
  unfold ofWords at h
  split at h
  · cases h
  · cases h
  · cases h
    exact comparison.locals_compare _ _

namespace Condition

theorem locals_testPath
    (test : PathTest)
    (operand : Operand) :
    (testPath test operand).locals = [] := by
  unfold testPath
  split
  · rename_i hPath
    exact Operand.locals_stringExpr? hPath
  · rfl

theorem locals_unary
    {op : Text}
    {operand : Operand}
    {e : BoolExpr}
    (h : unary op operand = .ok e) :
    e.locals = [] := by
  have hNonempty := operand.locals_nonemptyExpr
  have hNegate : operand.nonemptyExpr.negate.locals = [] := by
    unfold BoolExpr.negate
    split
    · rfl
    · exact hNonempty
  unfold unary at h
  repeat' split at h
  all_goals cases h
  · exact hNonempty
  · exact hNegate
  · exact locals_testPath .anything operand
  · exact locals_testPath .file operand
  · exact locals_testPath .directory operand

/- No condition uses a variable of the program's own. -/
theorem locals_ofWords
    {words : List Text}
    {e : BoolExpr}
    (h : ofWords words = .ok e) :
    e.locals = [] := by
  fun_induction ofWords words generalizing e with
  | case1 => cases h
  | case2 word =>
      cases hWord : Operand.ofWord word with
      | error fault =>
          rw [hWord] at h
          cases h
      | ok operand =>
          rw [hWord] at h
          cases h
          exact operand.locals_nonemptyExpr
  | case3 first rest _ result hResult =>
      unfold Comparison.ofWords? at hResult
      split at hResult
      · rcases Option.map_eq_some_iff.mp hResult with
          ⟨comparison, _, hWords⟩
        rw [← hWords] at h
        exact Comparison.locals_ofWords h
      · cases hResult
  | case4 rest _ _ ih =>
      cases hRest : ofWords rest with
      | error fault =>
          rw [hRest] at h
          cases h
      | ok inner =>
          rw [hRest] at h
          cases h
          change inner.locals = []
          exact ih hRest
  | case5 first _ word =>
      cases hWord : Operand.ofWord word with
      | error fault =>
          rw [hWord] at h
          cases h
      | ok operand =>
          rw [hWord] at h
          exact locals_unary h
  | case6 => cases h
  | case7 => cases h

end Condition

------------------------------------------------------------
-- Statements
------------------------------------------------------------

namespace Event

variable {file : Text}

/- A fault in place of a value keeps the scopes, too. -/
theorem keeps_orFail_map
    (line : Nat)
    {α : Type}
    {result : Except Fault α}
    {write : α → List Event}
    (h : ∀ value, result = .ok value →
      Keeps file (write value)) :
    Keeps file (orFail line (result.map write)) := by
  cases result with
  | error fault => exact keeps_fail line fault
  | ok value => exact h value rfl

/- A statement that hands one value to one line. -/
theorem keeps_withValue
    {value : Value}
    (h : Value.AreApart [value])
    {line : Line}
    (hLine : line.onlyUses = true)
    (hLocals : line.locals = value.expr.locals) :
    Keeps file (withValues [value] [line]) := by
  refine keeps_withValues h ?_
  intro other hOther
  rw [List.mem_singleton.mp hOther]
  refine ⟨hLine, ?_⟩
  rw [hLocals, Value.locals_expr
    (h.closed value List.mem_cons_self)]
  exact fun _ hl => hl

theorem keeps_run
    (command : Text) :
    Keeps file (run command) :=
  keeps_withValue (Value.areApart_ofTemplate _ _) rfl rfl

theorem keeps_test
    (line : Nat)
    (expr : Text) :
    Keeps file (test line expr) := by
  unfold test
  split
  · rename_i e hCondition
    exact keeps_write rfl (Condition.locals_ofWords hCondition)
  · exact (keeps_fail line _).append (keeps_write rfl rfl)

/- Checking a condition keeps the scopes. -/
theorem keeps_condition
    (line : Nat)
    (text : Text) :
    Keeps file (condition line text) := by
  have hCheck (text : Text) : Keeps file (check line text) := by
    unfold check
    split
    · exact keeps_test line _
    · split
      · exact keeps_write rfl rfl
      · split
        · exact keeps_write rfl rfl
        · exact keeps_run text
  unfold condition
  split
  · exact (hCheck _).append (keeps_write rfl rfl)
  · exact hCheck text

theorem keeps_print
    (newline : Bool)
    (template : Template) :
    Keeps file (print newline template) := by
  refine keeps_lines ?_
  intro line hLine
  rcases List.mem_cons.mp hLine with rfl | hLine
  · cases template with
    | literal text =>
        cases newline with
        | true => exact ⟨rfl, rfl⟩
        | false => exact ⟨rfl, rfl⟩
    | format text args =>
        exact ⟨rfl, FormatCall.locals_ofTemplate _ args⟩
  · rw [List.mem_singleton.mp hLine]
    exact ⟨rfl, rfl⟩

theorem keeps_echo
    (line : Nat)
    (args : Text) :
    Keeps file (orFail line (echo args)) := by
  unfold echo
  split
  · exact keeps_fail line _
  split
  · exact keeps_fail line _
  split
  · exact keeps_fail line _
  split
  · exact keeps_print true _
  · split
    · exact keeps_print false _
    · exact keeps_print true _

/- The output is freed here, and the command with the values. -/
theorem keeps_captureAssign
    (name command : Text) :
    Keeps file (captureAssign name command) := by
  have hApart := Value.areApart_ofTemplate .command
    (.ofCommand command)
  have hTemps := Value.temps_ofTemplate_subset .command
    (.ofCommand command)
  revert hApart hTemps
  unfold captureAssign
  generalize Value.ofTemplate .command (.ofCommand command) =
    value
  intro hApart hTemps
  have hLocals := Value.locals_expr
    (hApart.closed value List.mem_cons_self)
  have hOther : ∀ temp ∈ [value].flatMap Value.temps,
      temp ≠ .output := by
    intro temp hTemp
    rw [List.flatMap_singleton] at hTemp
    rw [List.mem_singleton.mp (hTemps.subset hTemp)]
    decide
  have hPlaces : (Value.places [value]).filter
      (some ⟨.temporary .output, none⟩ ≠ some ·) =
        Value.places [value] := by
    apply List.filter_eq_self.mpr
    intro place hPlace
    rcases List.mem_map.mp hPlace with ⟨temp, hTemp, rfl⟩
    have hNe := hOther temp hTemp
    simp [hNe.symm]
  refine keeps_withValuesInScope hApart
    (.declare rfl rfl ?_ ?_ rfl
      (.use rfl ?_ rfl (.free rfl ?_ (.nil _)))) ?_
  · intro hName
    rcases List.mem_map.mp hName with ⟨temp, hTemp, hSame⟩
    cases hSame
    exact hOther _ hTemp rfl
  · intro l hl
    rcases List.mem_cons.mp hl with rfl | hl
    · exact Or.inl rfl
    · rw [hLocals] at hl
      exact Or.inr hl
  · intro l hl
    rw [List.mem_singleton.mp hl]
    simp
  · simp [Line.stored]
  · simpa [Scope.take, Line.stored, Line.freed?] using hPlaces

theorem keeps_assign
    (name word : Text) :
    Keeps file (assign name word) := by
  have hValue : Keeps file _ :=
    keeps_withValue (Value.areApart_ofTemplate .value
      (.ofWord word)) (show Line.onlyUses
        (.assign name _) = true from rfl) rfl
  exact hValue.append (keeps_write rfl rfl)

/-
  The values of stages are built in variables of their own,
  from whatever number on the stages are counted.
-/
theorem areApart_mapIdx
    (stages : List Text)
    (n : Nat) :
    let values := stages.mapIdx fun index stage =>
      Value.ofTemplate (.stage (index + n)) (.ofCommand stage)
    Value.AreApart values ∧
      ∀ temp ∈ values.flatMap Value.temps,
        ∃ index, n ≤ index ∧ temp = .stage index := by
  induction stages generalizing n with
  | nil => exact ⟨⟨by simp, by simp⟩, by simp⟩
  | cons stage stages ih =>
      have hShift (index : Nat) :
          index + 1 + n = index + (n + 1) := by
        omega
      simp only [List.mapIdx_cons, Nat.zero_add, hShift]
      rcases ih (n + 1) with ⟨⟨hClosed, hNodup⟩, hAbove⟩
      have hTemps := Value.temps_ofTemplate_subset (.stage n)
        (.ofCommand stage)
      refine ⟨⟨?_, ?_⟩, ?_⟩
      · rw [List.forall_mem_cons]
        exact ⟨Value.isClosed_ofTemplate _ _, hClosed⟩
      · rw [List.flatMap_cons, List.nodup_append]
        refine ⟨hTemps.nodup (by simp), hNodup, ?_⟩
        intro temp hTemp other hOther
        rcases hAbove other hOther with ⟨index, hIndex, rfl⟩
        rw [List.mem_singleton.mp (hTemps.subset hTemp)]
        simp only [ne_eq, Temporary.stage.injEq]
        omega
      · intro temp hTemp
        rw [List.flatMap_cons] at hTemp
        rcases List.mem_append.mp hTemp with hFirst | hRest
        · exact ⟨n, Nat.le_refl n,
            List.mem_singleton.mp (hTemps.subset hFirst)⟩
        · rcases hAbove temp hRest with ⟨index, hIndex, hSame⟩
          exact ⟨index, Nat.le_of_succ_le hIndex, hSame⟩

theorem keeps_pipeline
    (stages : List Text) :
    Keeps file (pipeline stages) := by
  have hApart : Value.AreApart (stageValues stages) :=
    (areApart_mapIdx stages 0).1
  revert hApart
  unfold pipeline
  generalize stageValues stages = values
  intro hApart
  have hNew {l : Local} (hl : ∀ temp, l ≠ .temporary temp) :
      l ∉ Value.owners values := by
    intro hOwner
    rcases List.mem_map.mp hOwner with ⟨temp, _, hSame⟩
    exact hl temp hSame.symm
  have hLocals : ∀ l ∈ (values.map Value.expr).flatMap
      StringExpr.locals, l ∈ Value.owners values := by
    intro l hl
    rw [List.flatMap_map] at hl
    rcases List.mem_flatMap.mp hl with ⟨value, hValue, hl⟩
    rw [Value.locals_expr (hApart.closed value hValue)] at hl
    rcases List.mem_map.mp hl with ⟨temp, hTemp, rfl⟩
    rw [List.flatMap_singleton] at hTemp
    exact List.mem_map.mpr
      ⟨temp, List.mem_flatMap.mpr ⟨value, hValue, hTemp⟩, rfl⟩
  refine keeps_withValuesInScope hApart
    (.declare rfl rfl ?_ ?_ rfl (.declare rfl rfl ?_ ?_ rfl
      (.declare rfl rfl ?_ ?_ rfl (.use rfl ?_ rfl (.nil _)))))
    ?_
  · exact hNew (by simp)
  · intro l hl
    exact (List.mem_cons.mp hl).imp_right (hLocals l)
  · simp [hNew]
  · simp [Line.locals]
  · simp [hNew]
  · simp [Line.locals]
  · simp [Line.locals]
  · simp [Line.stored]

theorem keeps_background
    (command : Text) :
    Keeps file (background command) := by
  have hApart := Value.areApart_ofTemplate .command
    (.ofCommand command)
  refine keeps_withValues hApart ?_
  intro line hLine
  rcases List.mem_cons.mp hLine with rfl | hLine
  · refine ⟨rfl, ?_⟩
    rw [Line.locals, Value.locals_expr
      (hApart.closed _ List.mem_cons_self)]
    exact fun _ hl => hl
  · rw [List.mem_singleton.mp hLine]
    exact ⟨rfl, by simp [Line.locals]⟩

theorem keeps_changeDir
    (line : Nat)
    (dir : Option Text) :
    Keeps file (orFail line (changeDir dir)) := by
  refine keeps_orFail_map line ?_
  intro value hValue
  refine keeps_withValue ?_ rfl rfl
  unfold directory at hValue
  split at hValue
  · cases hValue
    exact ⟨by simp [Value.isClosed, StringExpr.locals],
      by simp [Value.temps]⟩
  · split at hValue
    · cases hValue
      exact Value.areApart_ofTemplate _ _
    · cases hValue

theorem keeps_exit
    (line : Nat)
    (code : Option Text) :
    Keeps file (orFail line (exit code)) := by
  refine keeps_orFail_map line ?_
  intro e he
  refine keeps_write rfl ?_
  cases code with
  | none =>
      cases he
      rfl
  | some word =>
      rw [exitCode] at he
      cases hWord : Operand.ofWord word with
      | error fault =>
          rw [hWord] at he
          cases he
      | ok operand =>
          rw [hWord] at he
          cases he
          exact operand.locals_intExpr

/- The directory is not built on the heap, so none is freed. -/
theorem keeps_printWorkingDir :
    Keeps file printWorkingDir := by
  intro n state hLoops
  let scope : Scope := { names := [.workingDir] }
  have hOffers (inner : Scoping)
      (hInner : inner = state.enter scope ∨
        inner = (state.enter scope).enter {}) :
      inner.Offers .workingDir := by
    have hGone : ∀ other ∈ state.scopes,
        Local.workingDir ∉ other.gone := by
      intro other hOther hGone
      rcases hLoops.gone other hOther _ hGone with ⟨k, hk, _⟩
      cases hk
    rcases hInner with rfl | rfl
    · exact ⟨⟨scope, by simp [Scoping.enter], by simp [scope]⟩,
        by simpa [Scoping.enter, scope] using hGone⟩
    · exact ⟨⟨scope, by simp [Scoping.enter], by simp [scope]⟩,
        by simpa [Scoping.enter, scope] using hGone⟩
  have hEntered (outer : Scoping) (inner : Scope) :
      (outer.enter inner).scopes ≠ [] :=
    List.cons_ne_nil _ _
  have hOpen : state.Passes [.openScope] (state.enter {}) :=
    .opening hLoops.nonempty rfl rfl rfl (by simp [Line.locals])
  have hDeclare : (state.enter {}).Passes [.declareWorkingDir]
      (state.enter scope) := by
    have hRuns : Scope.Runs {} [.declareWorkingDir] scope :=
      .declare rfl rfl (by simp) (by simp [Line.locals]) rfl
        (.nil _)
    exact hRuns.passes (by simp) hLoops
  have hFound : (state.enter scope).Passes [.openOnWorkingDir]
      ((state.enter scope).enter {}) :=
    .opening (hEntered _ _) rfl rfl rfl
      (by simpa [Line.locals] using hOffers _ (.inl rfl))
  have hPrint : ((state.enter scope).enter {}).Passes
      [.printWorkingDir] ((state.enter scope).enter {}) :=
    .use (hEntered _ _) rfl
      (by simpa [Line.locals] using hOffers _ (.inr rfl))
  have hElse : ((state.enter scope).enter {}).Passes [.openElse]
      ((state.enter scope).enter {}) :=
    .reopening (hEntered _ _) rfl
  have hBare (line : Line) (hLine : line.onlyUses = true)
      (hLocals : line.locals = []) :
      ((state.enter scope).enter {}).Passes [line]
        ((state.enter scope).enter {}) :=
    .bare (hEntered _ _) hLine hLocals
  have hClose : ((state.enter scope).enter {}).Passes [.close]
      (state.enter scope) :=
    .closing (hEntered _ _) rfl
  have hLeave : (state.enter scope).Passes [.close] state :=
    .closing hLoops.nonempty rfl
  exact hOpen.append (hDeclare.append (hFound.append
    (hPrint.append ((hBare .succeed rfl rfl).append
      (hElse.append ((hBare .failed rfl rfl).append
        (hClose.append hLeave)))))))

theorem keeps_informational
    (command text : Text) :
    Keeps file (informational command text) := by
  unfold informational
  split
  · exact keeps_write rfl rfl
  split
  · exact keeps_write rfl rfl
  split
  · exact keeps_printWorkingDir
  · exact keeps_run text

end Event

/- A statement that is no keyword of blocks keeps the scopes. -/
theorem Command.keeps_events
    {command : Command}
    (hPlain : command.form.blockRole = .plain)
    (file : Text)
    (blocks : List Frame)
    (loops line : Nat) :
    Event.Keeps file (command.events blocks loops line) := by
  rcases command with ⟨text, form⟩
  cases form with
  | comment => exact Event.keeps_nil
  | bodyOpen => exact Event.keeps_nil
  | pipeline stages => exact Event.keeps_pipeline stages
  | echo args => exact Event.keeps_echo line _
  | arithAssign name expr =>
      exact Event.keeps_orFail_map line fun _ _ =>
        (Event.keeps_write rfl rfl).append
          (Event.keeps_write rfl rfl)
  | captureAssign name body =>
      exact Event.keeps_captureAssign name body
  | arithPrint expr =>
      exact Event.keeps_orFail_map line fun _ _ =>
        (Event.keeps_write rfl rfl).append
          (Event.keeps_write rfl rfl)
  | test expr => exact Event.keeps_test line expr
  | changeDir dir => exact Event.keeps_changeDir line dir
  | exit code => exact Event.keeps_exit line code
  | background body => exact Event.keeps_background body
  | assign name value => exact Event.keeps_assign name value
  | informational name args =>
      exact Event.keeps_informational name text
  | varPrint => exact Event.keeps_print true _
  | unsupported => exact Event.keeps_fail line _
  | _ => cases hPlain

end ShellToC
