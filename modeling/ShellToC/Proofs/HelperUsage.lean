import ShellToC.Proofs.HelperBodies
import ShellToC.Proofs.Nesting

/-
  This file shows that a program has the helpers that it
  calls, and no others.

  The usage of a draft is what its lines ask for, together
  with the helpers that these call.  The text of the program
  declares each of them before its main function and defines
  it behind, in the order of `Helper.all`.

  Main declarations:
    * `Usage.contains_requireAll`
    * `Draft.usage_ofScript`
    * `Program.makeUp_sourceLexemes`
    * `Program.ofScript_usage_exact`
-/

namespace ShellToC

open Lexeme

------------------------------------------------------------
-- Usage
------------------------------------------------------------

namespace Helper

/- Three helpers wait for a process, and no others call any. -/
theorem mem_calls
    {helper caller : Helper} :
    helper ∈ caller.calls ↔
      helper = .waitStatus ∧
        caller ∈ [.run, .capture, .pipeline] := by
  cases caller <;> simp [calls]

/- No helper calls itself. -/
theorem not_mem_calls
    (helper : Helper) :
    helper ∉ helper.calls := by
  cases helper <;> simp [calls]

theorem name_ne_main
    (helper : Helper) :
    helper.name ≠ "main" := by
  have hAll : ∀ helper ∈ all, helper.name ≠ "main" := by
    decide +kernel
  exact hAll helper helper.mem_all

end Helper

namespace Usage

theorem contains_require
    (usage : Usage)
    (needed helper : Helper) :
    (usage.require needed).contains helper = true ↔
      usage.contains helper = true ∨
        helper ∈ needed.required := by
  simp only [require, newcomers, contains,
    List.contains_eq_mem, decide_eq_true_eq, List.mem_append,
    List.mem_filter, Bool.not_eq_true', decide_eq_false_iff_not]
  constructor
  · rintro (hOld | hNew)
    · exact Or.inl hOld
    · exact Or.inr hNew.1
  · rintro (hOld | hNew)
    · exact Or.inl hOld
    · by_cases hOld : helper ∈ usage.needed
      · exact Or.inl hOld
      · exact Or.inr ⟨hNew, hOld⟩

/- Needed are the helpers asked for and those that they call. -/
theorem contains_requireAll
    (usage : Usage)
    (needs : List Helper)
    (helper : Helper) :
    (usage.requireAll needs).contains helper = true ↔
      usage.contains helper = true ∨
        ∃ needed ∈ needs, helper ∈ needed.required := by
  induction needs generalizing usage with
  | nil => simp [requireAll]
  | cons needed needs ih =>
      have hStep : usage.requireAll (needed :: needs) =
          (usage.require needed).requireAll needs := rfl
      rw [hStep, ih, contains_require]
      simp [or_assoc]

/-
  A helper is needed if it is asked for, or if it is called
  by one that is needed.
-/
theorem contains_requireAll_empty
    (needs : List Helper)
    (helper : Helper) :
    (empty.requireAll needs).contains helper = true ↔
      helper ∈ needs ∨
        ∃ caller, helper ∈ caller.calls ∧
          (empty.requireAll needs).contains caller =
            true := by
  have hIff (h : Helper) :
      (empty.requireAll needs).contains h = true ↔
        ∃ needed ∈ needs, h = needed ∨ h ∈ needed.calls := by
    rw [contains_requireAll]
    simp [contains, empty, Helper.required]
  simp only [hIff]
  constructor
  · rintro ⟨needed, hNeeded, rfl | hCall⟩
    · exact Or.inl hNeeded
    · exact Or.inr
        ⟨needed, hCall, needed, hNeeded, Or.inl rfl⟩
  · rintro (hNeeded |
      ⟨caller, hCall, needed, hNeeded, rfl | hCaller⟩)
    · exact ⟨helper, hNeeded, Or.inl rfl⟩
    · exact ⟨caller, hNeeded, Or.inr hCall⟩
    · -- A helper that is called does not call any itself.
      rw [(Helper.mem_calls.mp hCaller).1] at hCall
      simp [Helper.calls] at hCall

end Usage

------------------------------------------------------------
-- Drafts
------------------------------------------------------------

/- Events ask for the helpers of the rows that they write. -/
theorem Event.flatMap_needs_eq
    (file : Text)
    (blocks : List Frame)
    (events : List Event) :
    events.flatMap needs =
      (rowsAll file blocks events).flatMap
        (·.line.needs) := by
  induction events generalizing blocks with
  | nil => rfl
  | cons event events ih =>
      rw [List.flatMap_cons, rowsAll, List.flatMap_append,
        ih (event.stack blocks)]
      cases event <;> simp [needs, rows, Line.needs]

namespace Draft

/- The usage of a script is what the rows of its draft ask for. -/
theorem usage_ofScript
    (file unit script : Text) :
    let draft := ofScript file unit script
    draft.usage = Usage.empty.requireAll
      (draft.rows.toList.flatMap (·.line.needs)) := by
  intro draft
  rcases ofScript_eq file unit script with ⟨log, hScript⟩
  simp only [draft, hScript, finish_addCommands_eq_extend,
    usage_extend, toList_rows_extend, List.flatMap_append,
    Event.flatMap_needs_eq file (start file unit).blocks]
  rfl

/- The lines of a nested draft use the helpers that they ask for. -/
theorem IsNested.uses_body
    {draft : Draft}
    (h : draft.IsNested)
    (hUnit : draft.unit.isAllBlank = true) :
    Uses (ofText draft.body)
      (draft.rows.toList.flatMap (·.line.needs)) := by
  rw [(h.readsWhole_body hUnit).ofText_eq]
  exact uses_flatMap fun row hRow =>
    Line.uses_lexemes (h.rows.legible row hRow)

/- The usage of a script depends on its statements only. -/
theorem usage_ofScript_eq
    (file unit script : Text) :
    (ofScript file unit script).usage =
      Usage.empty.requireAll
        ((Command.eventsToEnd [] 0
          (Command.ofScript script)).flatMap Event.needs) := by
  rcases ofScript_eq file unit script with ⟨log, hScript⟩
  rw [hScript]
  simp only [finish_addCommands_eq_extend, usage_extend]
  rfl

end Draft

------------------------------------------------------------
-- Programs
------------------------------------------------------------

namespace Program

open Layout CFunction

/- The preamble holds no functions, and names no helper. -/
theorem preamble_facts :
    isWhole preambleLines = true ∧
    (Outline.outside []).functions (lexemes preambleLines) =
      [] ∧
    (Outline.outside []).after (lexemes preambleLines) =
      .outside [] ∧
    avoids Callee.isHelper (lexemes preambleLines) = true := by
  simp only [preambleLines, isWhole_cons, isWhole_nil,
    lexemes_cons, lexemes_nil]
  repeat rw [String.toList_ofList]
  decide +kernel

/- The lexemes of the main function around those of its lines. -/
def mainLexemes
    (ls : List Lexeme) : List Lexeme :=
  ofText "int main(void)" ++ [.sign '\x7b'] ++
    (ls ++ ofText "return 0;") ++ [.sign '\x7d']

/- The lexemes of a program. -/
def sourceLexemes
    (usage : Usage)
    (ls : List Lexeme) : List Lexeme :=
  lexemes preambleLines ++
    usage.helpers.flatMap Helper.declarationLexemes ++
    mainLexemes ls ++
    usage.helpers.flatMap Helper.definitionLexemes

theorem readsWhole_mainFunction
    {unit body : Text}
    {ls : List Lexeme}
    (hUnit : unit.isAllBlank = true)
    (hBody : ReadsWhole body ls) :
    ReadsWhole (mainFunction unit body) (mainLexemes ls) := by
  have hHead : ReadsWhole
      (Text.ofString "\nint main(void)\n\x7b\n")
      (ofText "int main(void)" ++ [.sign '\x7b']) :=
    readsWhole_fixed (by decide +kernel)
  have hEnd : ReadsWhole (Text.ofString "return 0;\n\x7d\n")
      (ofText "return 0;" ++ [.sign '\x7d']) :=
    readsWhole_fixed (by decide +kernel)
  have hAll := ((hHead.append hBody).append
    (readsWhole_of_isAllBlank hUnit)).append hEnd
  simpa [mainFunction, mainLexemes] using hAll

theorem readsWhole_declarations
    (usage : Usage) :
    ReadsWhole (declarations usage)
      (usage.helpers.flatMap Helper.declarationLexemes) := by
  have hFeed : ReadsWhole ['\n'] [] :=
    readsWhole_of_isAllBlank (by decide)
  have hAll : ReadsWhole
      (usage.helpers.flatMap fun helper =>
        helper.declaration ++ ['\n'])
      (usage.helpers.flatMap Helper.declarationLexemes) :=
    readsWhole_flatMap fun helper _ => by
      simpa using helper.readsWhole_declaration.append hFeed
  unfold declarations
  split
  · rename_i hNone
    rw [List.isEmpty_iff.mp hNone]
    exact readsWhole_nil
  · exact hFeed.append hAll

theorem readsWhole_definitions
    (usage : Usage) :
    ReadsWhole (definitions usage)
      (usage.helpers.flatMap Helper.definitionLexemes) := by
  have hFeed : ReadsWhole ['\n'] [] :=
    readsWhole_of_isAllBlank (by decide)
  exact readsWhole_flatMap fun helper _ =>
    hFeed.append helper.readsWhole_definition

/- A program is read as the lexemes of its parts. -/
theorem ofText_assemble
    {unit body : Text}
    {ls : List Lexeme}
    (hUnit : unit.isAllBlank = true)
    (hBody : ReadsWhole body ls)
    (usage : Usage) :
    ofText (assemble unit body usage) =
      sourceLexemes usage ls := by
  have hPreamble := readsWhole_text preamble_facts.1
  exact (((hPreamble.append
    (readsWhole_declarations usage)).append
    (readsWhole_mainFunction hUnit hBody)).append
    (readsWhole_definitions usage)).ofText_eq

/-
  A program declares the helpers that it needs, then defines
  its main function, and then the helpers.
-/
def functionsOf
    (usage : Usage)
    (ls : List Lexeme) : List CFunction :=
  usage.helpers.map (⟨·.name, none⟩) ++
    ⟨"main", some (ls ++ ofText "return 0;")⟩ ::
    usage.helpers.map fun helper =>
      ⟨helper.name, some (ofText (text helper.body))⟩

theorem makeUp_sourceLexemes
    (usage : Usage)
    {ls : List Lexeme}
    (hBraces : unclosed ls = 0 ∧ StaysAbove 0 ls) :
    MakeUp (sourceLexemes usage ls)
      (functionsOf usage ls) := by
  have hPreamble : MakeUp (lexemes preambleLines) [] :=
    ⟨preamble_facts.2.1, preamble_facts.2.2.1⟩
  have hEnd : IsFlat (ofText "return 0;") := by
    decide +kernel
  have hBody : unclosed (ls ++ ofText "return 0;") = 0 ∧
      StaysAbove 0 (ls ++ ofText "return 0;") := by
    constructor
    · rw [unclosed_append, hBraces.1, hEnd.unclosed_eq]
      rfl
    · refine staysAbove_append hBraces.2 ?_
      rw [hBraces.1]
      exact hEnd.staysAbove (by decide)
  have hMain : MakeUp (mainLexemes ls)
      [⟨"main", some (ls ++ ofText "return 0;")⟩] :=
    CFunction.makeUp_definition
      ⟨by decide +kernel, by decide +kernel⟩
      (by decide +kernel) hBody
  have hDeclared := makeUp_flatMap usage.helpers
    Helper.makeUp_declaration
  have hDefined := makeUp_flatMap usage.helpers
    Helper.makeUp_definition
  have hAll := ((hPreamble.append hDeclared).append
    hMain).append hDefined
  simpa [sourceLexemes, functionsOf] using hAll

theorem mem_helpers
    {usage : Usage}
    {helper : Helper} :
    helper ∈ usage.helpers ↔
      usage.contains helper = true := by
  simp [Usage.helpers, helper.mem_all]

section

variable {usage : Usage}
variable {ls : List Lexeme}
variable {needs : List Helper}

/- Needed are the helpers that are called, in the end. -/
theorem contains_iff_mem_calls
    (hUses : Uses ls needs)
    (hUsage : usage = Usage.empty.requireAll needs)
    (helper : Helper) :
    usage.contains helper = true ↔
      helper.name ∈ calls ls ∨
        ∃ caller, helper ∈ caller.calls ∧
          usage.contains caller = true := by
  rw [hUses.mem_calls_iff, hUsage]
  exact Usage.contains_requireAll_empty needs helper

/- A program names no helpers but those that it needs. -/
theorem contains_of_mem_sourceLexemes
    (hUses : Uses ls needs)
    (hUsage : usage = Usage.empty.requireAll needs)
    {helper : Helper}
    (h : .word helper.name ∈ sourceLexemes usage ls) :
    usage.contains helper = true := by
  have hPreamble := uses_nil preamble_facts.2.2.2
  have hMain : Uses (ofText "int main(void)") [] :=
    uses_nil (by decide +kernel)
  have hEnd : Uses (ofText "return 0;") [] :=
    uses_nil (by decide +kernel)
  have hIff := contains_iff_mem_calls hUses hUsage helper
  simp only [sourceLexemes, mainLexemes, List.mem_append,
    List.mem_singleton, List.mem_flatMap, reduceCtorEq,
    or_false] at h
  rcases h with ((h | h) | h | h | h) | h
  · exact absurd (hPreamble.named helper h) (by simp)
  · rcases h with ⟨declared, hDeclared, h⟩
    rw [Helper.eq_of_mem_declarationLexemes h]
    exact mem_helpers.mp hDeclared
  · exact absurd (hMain.named helper h) (by simp)
  · exact hIff.mpr (Or.inl
      (hUses.called helper (hUses.named helper h)))
  · exact absurd (hEnd.named helper h) (by simp)
  · rcases h with ⟨defined, hDefined, h⟩
    have hDefined := mem_helpers.mp hDefined
    rcases List.mem_cons.mp
        (Helper.mem_required_of_mem_definitionLexemes h) with
      rfl | hCall
    · exact hDefined
    · exact hIff.mpr (Or.inr ⟨defined, hCall, hDefined⟩)

/- Needed are the helpers that another function calls. -/
theorem contains_iff_called
    (hUses : Uses ls needs)
    (hUsage : usage = Usage.empty.requireAll needs)
    (helper : Helper) :
    usage.contains helper = true ↔
      ∃ caller ∈ functionsOf usage ls,
        caller.name ≠ helper.name ∧
          ∃ code, caller.body = some code ∧
            helper.name ∈ calls code := by
  have hIff := contains_iff_mem_calls hUses hUsage helper
  have hMain : Uses (ls ++ ofText "return 0;") needs :=
    hUses.between [] _ rfl (by decide +kernel)
  constructor
  · intro hContains
    rcases hIff.mp hContains with
      hCall | ⟨caller, hCall, hCaller⟩
    · exact ⟨⟨"main", some (ls ++ ofText "return 0;")⟩,
        by simp [functionsOf], helper.name_ne_main.symm,
        _, rfl, mem_calls_append_left hCall _⟩
    · refine ⟨⟨caller.name,
          some (ofText (text caller.body))⟩, ?_, ?_, _, rfl,
        caller.uses_body.called helper hCall⟩
      · simp only [functionsOf, List.mem_append,
          List.mem_cons, List.mem_map]
        exact Or.inr (Or.inr
          ⟨caller, mem_helpers.mpr hCaller, rfl⟩)
      · intro hSame
        rw [Helper.eq_of_name_eq hSame] at hCall
        exact helper.not_mem_calls hCall
  · rintro ⟨caller, hCaller, -, code, hCode, hCall⟩
    simp only [functionsOf, List.mem_append, List.mem_cons,
      List.mem_map] at hCaller
    rcases hCaller with ⟨declared, -, rfl⟩ | rfl |
      ⟨defined, hDefined, rfl⟩
    · contradiction
    · cases hCode
      have hNeeded := (hMain.mem_calls_iff helper).mp hCall
      exact hIff.mpr
        (Or.inl ((hUses.mem_calls_iff helper).mpr hNeeded))
    · cases hCode
      have hListed :=
        (defined.uses_body.mem_calls_iff helper).mp hCall
      exact hIff.mpr (Or.inr
        ⟨defined, hListed, mem_helpers.mp hDefined⟩)

end

/-
  The usage of a program is exact.  It depends on the script
  only, and a helper is in it if and only if the lines of
  the script call it, or if it waits for the processes of
  another helper that is in it.

  The functions of the program are the declarations of these
  helpers, the main function, and their definitions.  Each
  of them is called by the main function or by another
  helper, and the text names no other helpers.

  Only the messages of faults have their comment ends parted
  when they are written into a comment, the name of the file
  is written there as it is.  A name with a comment end would
  turn what follows it into code, so it may hold none.
-/
theorem ofScript_usage_exact
    (file unit script : Text)
    (hFile : Text.occursIn "*/" file = false)
    (hUnit : unit.isAllBlank = true) :
    let program := ofScript file unit script
    let body := ofText (Draft.ofScript file unit script).body
    let helpers := Helper.all.filter program.usage.contains
    let functions := ofLexemes (ofText program.source)
    (∀ otherFile otherUnit,
      (ofScript otherFile otherUnit script).usage =
        program.usage) ∧
    (∀ helper, program.usage.contains helper = true ↔
      helper.name ∈ calls body ∨
        helper = .waitStatus ∧
          ∃ caller ∈ [Helper.run, .capture, .pipeline],
            program.usage.contains caller = true) ∧
    functions =
      helpers.map (⟨·.name, none⟩) ++
        ⟨"main", some (body ++ ofText "return 0;")⟩ ::
        helpers.map (fun helper =>
          ⟨helper.name, some (ofText (text helper.body))⟩) ∧
    (∀ helper, helper ∈ helpers ↔
      ∃ caller ∈ functions, caller.name ≠ helper.name ∧
        ∃ code, caller.body = some code ∧
          helper.name ∈ calls code) ∧
    (∀ helper, helper ∉ helpers →
      .word helper.name ∉ ofText program.source) := by
  intro program body helpers functions
  have hNested := Draft.isNested_ofScript hFile unit script
  have hBlank :
      (Draft.ofScript file unit script).unit.isAllBlank =
        true := by
    rw [Draft.unit_ofScript]
    exact hUnit
  have hUses := hNested.1.uses_body hBlank
  have hUsage : program.usage = Usage.empty.requireAll _ :=
    Draft.usage_ofScript file unit script
  have hSource : ofText program.source =
      sourceLexemes program.usage body := by
    have hRead := hNested.1.readsWhole_body hBlank
    have hAll := ofText_assemble hBlank hRead program.usage
    rwa [← hRead.ofText_eq] at hAll
  have hFunctions : functions =
      functionsOf program.usage body := by
    have hBraces := hNested.1.unclosed_body hBlank
    rw [hNested.2] at hBraces
    simp only [functions, hSource]
    exact (makeUp_sourceLexemes program.usage
      hBraces).functions_eq
  have hMem (helper : Helper) : helper ∈ helpers ↔
      program.usage.contains helper = true := mem_helpers
  refine ⟨?_, ?_, hFunctions, ?_, ?_⟩
  · intro otherFile otherUnit
    exact (Draft.usage_ofScript_eq _ _ script).trans
      (Draft.usage_ofScript_eq file unit script).symm
  · intro helper
    rw [contains_iff_mem_calls hUses hUsage helper]
    simp only [Helper.mem_calls, and_assoc,
      exists_and_left]
    rfl
  · intro helper
    rw [hMem, hFunctions]
    exact contains_iff_called hUses hUsage helper
  · intro helper hOther hNamed
    rw [hSource] at hNamed
    exact hOther ((hMem helper).mpr
      (contains_of_mem_sourceLexemes hUses hUsage hNamed))

/- The name of a helper in a text that is printed is no call. -/
theorem ofScript_usage_exact_of_printed :
    let script : Text := "x=$(date)\necho 'sh_run(1)'"
    let program := ofScript "a.sh" "  " script
    let body := ofText (Draft.ofScript "a.sh" "  " script).body
    let functions := ofLexemes (ofText program.source)
    Text.occursIn "*/" "a.sh" = false ∧
    Text.isAllBlank "  " = true ∧
    (ofScript "b.sh" "" script).usage = program.usage ∧
    Helper.capture.name ∈ calls body ∧
    Helper.waitStatus.name ∉ calls body ∧
    functions.map (fun function =>
        (function.name, function.body.isSome)) =
      [(Helper.waitStatus.name, false),
       (Helper.capture.name, false), ("main", true),
       (Helper.waitStatus.name, true),
       (Helper.capture.name, true)] ∧
    (∃ caller ∈ functions,
      caller.name ≠ Helper.waitStatus.name ∧
        ∃ code, caller.body = some code ∧
          Helper.waitStatus.name ∈ calls code) ∧
    .word Helper.run.name ∉ ofText program.source := by
  intro script program body functions
  have hFile : Text.occursIn "*/" "a.sh" = false := by
    decide +kernel
  have hUnit : Text.isAllBlank "  " = true := by
    decide +kernel
  have hHelpers : Helper.all.filter program.usage.contains =
      [.waitStatus, .capture] := by
    decide +kernel
  have hWait : Helper.waitStatus.name ∉ calls body := by
    decide +kernel
  rcases ofScript_usage_exact "a.sh" "  " script hFile hUnit
    with ⟨hSame, hUsage, hFunctions, hCalled, hNamed⟩
  have hContains (helper : Helper) :
      program.usage.contains helper = true ↔
        helper ∈ [Helper.waitStatus, .capture] := by
    rw [← hHelpers]
    exact mem_helpers.symm
  have hCapture := (hUsage .capture).mp
    ((hContains .capture).mpr (by simp))
  refine ⟨hFile, hUnit, hSame "b.sh" "", ?_, hWait, ?_, ?_,
    ?_⟩
  · simpa using hCapture
  · simp only [functions, program, hFunctions]
    rw [hHelpers]
    rfl
  · refine (hCalled .waitStatus).mp ?_
    rw [hHelpers]
    simp
  · refine hNamed .run ?_
    rw [hHelpers]
    simp

end Program

end ShellToC
