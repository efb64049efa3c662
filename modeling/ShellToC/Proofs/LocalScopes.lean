import ShellToC.Proofs.BlockScopes
import ShellToC.Proofs.HelperUsage

/-
  This file says where the variables of a program are
  declared and used, by the text of the program alone: the
  lexemes of its lines, the words right behind a type, and
  the braces.

  Comments and literals are left out by the lexemes.  The
  head of a loop declares its index for the braces that it
  opens, so a declaration reaches from the end of its line
  to the end of the scope that is the innermost one there.

  Key definitions include:
    * `Draft.code`
    * `Lexeme.IsDeclaration`
    * `Lexeme.IsDeclaredBefore`

  Main declarations:
    * `Draft.exists_lines`
    * `Scoping.Passes.exists_declaration`
    * `Program.ofText_source_eq`
    * `Program.locals_declared_in_scope`
-/

namespace ShellToC

open Lexeme Layout

------------------------------------------------------------
-- The Code of a Draft
------------------------------------------------------------

namespace Draft

/- The lexemes of the lines of the main function. -/
def code
    (draft : Draft) : List (List Lexeme) :=
  draft.rows.toList.map fun row => ofText row.line.render

section

variable {file : Text}
variable (hFile : Text.occursIn "*/" file = false)
variable (unit script : Text)

include hFile

/- The lines are read as they are spelled. -/
theorem code_ofScript :
    (ofScript file unit script).code =
      (ofScript file unit script).rows.toList.map
        (·.line.lexemes) := by
  have hLegible :=
    (isNested_ofScript hFile unit script).1.rows.legible
  apply List.map_congr_left
  intro row hRow
  exact (Line.readsWhole_render (hLegible row hRow)).ofText_eq

/- The code of a script is that of lines that pass. -/
theorem exists_lines :
    ∃ lines final,
      (ofScript file unit script).code =
        lines.map Line.lexemes ∧
      (∀ line ∈ lines, line.IsLegible) ∧
      Scoping.start.Passes lines final ∧
      ∀ scope ∈ final.scopes, scope.held = [] := by
  rcases exists_passes_ofScript file unit script with
    ⟨final, hPasses, hFinal⟩
  refine ⟨_, final, ?_, ?_, hPasses, hFinal⟩
  · rw [code_ofScript hFile, List.map_map]
    rfl
  · intro line hLine
    rcases List.mem_map.mp hLine with ⟨row, hRow, rfl⟩
    exact (isNested_ofScript hFile unit script).1.rows.legible
      row hRow

/- The lexemes of the text are those of the lines. -/
theorem readsWhole_code
    (hUnit : unit.isAllBlank = true) :
    ReadsWhole (ofScript file unit script).body
      (ofScript file unit script).code.flatten := by
  have hBlank :
      (ofScript file unit script).unit.isAllBlank = true := by
    rw [unit_ofScript]
    exact hUnit
  rw [code_ofScript hFile, ← List.flatMap_def]
  exact (isNested_ofScript hFile unit script).1.readsWhole_body
    hBlank

end

end Draft

------------------------------------------------------------
-- Declarations in Lines
------------------------------------------------------------

namespace Lexeme

/- Where it first stands in the line, the word is declared. -/
def IsDeclaration
    (x : Text)
    (line : List Lexeme) : Prop :=
  ∃ p q, line = p ++ .word x :: q ∧ .word x ∉ p ∧
    x ∈ declared (p ++ [.word x])

theorem IsDeclaration.mem_declared
    {x : Text}
    {line : List Lexeme}
    (h : IsDeclaration x line) :
    x ∈ declared line := by
  rcases h with ⟨p, q, rfl, _, hDeclared⟩
  rw [← List.singleton_append, ← List.append_assoc, declared,
    declaredFrom_append]
  exact List.mem_append_left _ hDeclared

/-
  The word is declared by a line before, and the scope of
  the declaration is open up to the end of the line.
-/
def IsDeclaredBefore
    (x : Text)
    (before : List (List Lexeme))
    (line : List Lexeme) : Prop :=
  ∃ a declaration b, before = a ++ declaration :: b ∧
    x ∈ declared declaration ∧
    StaysAbove 0 (b.flatten ++ line)

end Lexeme

namespace Scoping.Passes

/-
  A variable that a line uses is declared there, or by a
  line before it in a scope that is still open.
-/
theorem exists_declaration
    {a c : List Line}
    {line : Line}
    {final : Scoping}
    (h : start.Passes (a ++ line :: c) final)
    {l : Local}
    (hUse : l ∈ line.locals) :
    line.declared? = some l ∨
      ∃ before declaration b,
        a = before ++ declaration :: b ∧
          declaration.declared? = some l ∧
          ∃ m, Line.level? 0 (b ++ [line]) = some m := by
  rcases h.split with ⟨between, hBefore, hRest⟩
  have hSound := hBefore.isSound isSound_start
  have hTraced := hBefore.isTraced isSound_start isTraced_start
  rw [List.nil_append] at hTraced
  cases hRest with
  | cons hFits _ =>
      -- The scope of the declaration is not closed by the line.
      have hKnown : line.declared? = some l ∨
          ∃ upper scope lower,
            between.scopes = upper ++ scope :: lower ∧
              line.closes ≤ upper.length ∧
              l ∈ scope.names := by
        cases hFreed : line.freed? with
        | none =>
            refine (hFits.known hFreed l hUse).imp_right ?_
            rintro ⟨scope, hScope, hName⟩
            rcases List.mem_iff_append.mp hScope with
              ⟨upper, lower, hOuter⟩
            refine ⟨between.scopes.take line.closes ++ upper,
              scope, lower, ?_, ?_, hName⟩
            · rw [List.append_assoc, ← hOuter,
                List.take_append_drop]
            · have hCloses := hFits.closes_lt
              rw [List.length_append, List.length_take]
              omega
        | some place =>
            rcases hFits.holds place hFreed with
              ⟨scope, lower, hScopes, hHeld⟩
            rw [Line.locals_of_freed? hFreed,
              List.mem_singleton] at hUse
            refine Or.inr ⟨[], scope, lower, hScopes, ?_, ?_⟩
            · rw [(Line.opens_closes_of_freed? hFreed).2]
              exact Nat.zero_le _
            · rw [hUse]
              exact hSound.owned scope (by simp [hScopes]) place
                hHeld
      refine hKnown.imp_right ?_
      rintro ⟨upper, scope, lower, hScopes, hCloses, hName⟩
      rcases hTraced.names hScopes hName with
        ⟨before, declaration, b, hLines, hDeclared, hLevel⟩
      refine ⟨before, declaration, b, hLines, hDeclared,
        upper.length - line.closes + line.opens, ?_⟩
      exact Line.level?_concat hLevel hCloses (by omega)

end Scoping.Passes

namespace Line

/- Code is split where the lines are. -/
theorem exists_split
    {lines : List Line}
    {a c : List (List Lexeme)}
    {line : List Lexeme}
    (h : lines.map lexemes = a ++ line :: c) :
    ∃ before written after,
      lines = before ++ written :: after ∧
        before.map lexemes = a ∧
        written.lexemes = line ∧
        after.map lexemes = c := by
  rcases List.map_eq_append_iff.mp h with
    ⟨before, rest, rfl, hBefore, hRest⟩
  rcases List.map_eq_cons_iff.mp hRest with
    ⟨written, after, rfl, hWritten, hAfter⟩
  exact ⟨before, written, after, rfl, hBefore, hWritten,
    hAfter⟩

/- The names that lines declare, in order. -/
theorem declaredFrom_flatMap
    {lines : List Line}
    (h : ∀ line ∈ lines, line.IsLegible) :
    declaredFrom false (lines.flatMap lexemes) =
      (lines.filterMap declared?).map Local.name := by
  induction lines with
  | nil => rfl
  | cons line lines ih =>
      rw [List.forall_mem_cons] at h
      rcases declared_lexemes h.1 with ⟨hFirst, hEnd⟩
      rw [declared] at hFirst
      rw [List.flatMap_cons, declaredFrom_append, hFirst, hEnd,
        ih h.2]
      cases hDeclared : line.declared? with
      | none => simp [hDeclared]
      | some l => simp [hDeclared]

theorem exists_declared?
    {line : Line}
    (h : line.IsLegible)
    {x : Text}
    (hx : x ∈ declared line.lexemes) :
    ∃ l, line.declared? = some l ∧ l.name = x := by
  rw [(declared_lexemes h).1] at hx
  simpa using hx

end Line

namespace Scoping.Passes

section

variable {lines : List Line}
variable {final : Scoping}
variable (h : start.Passes lines final)
variable (hLegible : ∀ line ∈ lines, line.IsLegible)

include h hLegible

/- Between two declarations of a name, the first scope is closed. -/
theorem not_staysAbove_between
    {a b c : List (List Lexeme)}
    {first second : List Lexeme}
    (hCode : lines.map Line.lexemes =
      a ++ first :: (b ++ second :: c))
    {x : Text}
    (hFirst : x ∈ declared first)
    (hSecond : x ∈ declared second) :
    ¬ StaysAbove 0 b.flatten := by
  intro hAbove
  rcases Line.exists_split hCode with
    ⟨before, line, rest, rfl, _, rfl, hRest⟩
  rcases Line.exists_split hRest with
    ⟨between, other, after, rfl, rfl, rfl, _⟩
  simp only [List.forall_mem_append, List.forall_mem_cons]
    at hLegible
  rcases hLegible with ⟨_, hLine, hBetween, hOther, _⟩
  rcases Line.exists_declared? hLine hFirst with ⟨l, hl, rfl⟩
  rcases Line.exists_declared? hOther hSecond with
    ⟨same, hSame, hName⟩
  rw [Local.eq_of_name_eq hName] at hSame
  have hLevel := h.not_redeclared hl hSame
  rw [← List.flatMap_def] at hAbove
  rcases (Line.staysAbove_flatMap_iff hBetween 0).mp hAbove
    with ⟨m, hOpen⟩
  rw [hLevel] at hOpen
  cases hOpen

/- A variable in the text of a line is declared there or before. -/
theorem isDeclaration_or_isDeclaredBefore
    {a c : List (List Lexeme)}
    {line : List Lexeme}
    (hCode : lines.map Line.lexemes = a ++ line :: c)
    {l : Local}
    (hUse : l.lexeme ∈ line) :
    IsDeclaration l.name line ∨
      IsDeclaredBefore l.name a line := by
  rcases Line.exists_split hCode with
    ⟨before, written, after, rfl, rfl, rfl, _⟩
  have hLocal := Line.mem_locals_of_mem_lexemes
    (hLegible written (by simp)) hUse
  refine (h.exists_declaration hLocal).imp
    Line.exists_declaration ?_
  rintro ⟨outer, declaration, b, rfl, hDeclared, hLevel⟩
  simp only [List.forall_mem_append, List.forall_mem_cons]
    at hLegible
  rcases hLegible with ⟨⟨_, hDeclaration, hb⟩, hWritten, _⟩
  refine ⟨outer.map Line.lexemes, declaration.lexemes,
    b.map Line.lexemes, by simp, ?_, ?_⟩
  · rw [(Line.declared_lexemes hDeclaration).1, hDeclared]
    exact List.mem_singleton_self _
  · have hOpen : ∀ line ∈ b ++ [written],
        line.IsLegible := by
      rw [List.forall_mem_append, List.forall_mem_singleton]
      exact ⟨hb, hWritten⟩
    have hAbove :=
      (Line.staysAbove_flatMap_iff hOpen 0).mpr hLevel
    simpa [List.flatMap_append, List.flatMap_def]
      using hAbove

end

end Scoping.Passes

------------------------------------------------------------
-- Around the Main Function
------------------------------------------------------------

/- No helper has a variable that is named like those of a script. -/
theorem Helper.filter_isLocal
    (helper : Helper) :
    helper.headLexemes.filter isLocal = [] ∧
      (lexemes helper.body).filter isLocal = [] := by
  have hAll : ∀ helper ∈ all,
      helper.headLexemes.filter isLocal = [] ∧
        (lexemes helper.body).filter isLocal = [] := by
    simp only [all, List.forall_mem_cons, headLexemes, head,
      body, varBody, intBody, setIntBody, formatBody,
      waitStatusBody, runBody, captureBody, pipelineBody,
      backgroundBody, pathExistsBody, isFileBody, isDirBody,
      lexemes_indented, lexemes_append, lexemes_block,
      lexemes_cons, lexemes_nil]
    repeat rw [String.toList_ofList]
    decide +kernel
  exact hAll helper helper.mem_all

namespace Program

/- The lexemes before the lines of the main function. -/
def openingLexemes
    (usage : Usage) : List Lexeme :=
  lexemes preambleLines ++
    usage.helpers.flatMap Helper.declarationLexemes ++
    ofText "int main(void)" ++ [.sign '\x7b']

/- The lexemes behind the lines of the main function. -/
def closingLexemes
    (usage : Usage) : List Lexeme :=
  ofText "return 0;" ++ [.sign '\x7d'] ++
    usage.helpers.flatMap Helper.definitionLexemes

theorem filter_isLocal_preamble :
    (lexemes preambleLines).filter isLocal = [] := by
  simp only [preambleLines, lexemes_cons, lexemes_nil]
  repeat rw [String.toList_ofList]
  decide +kernel

/- Variables of the script are used in the main function only. -/
theorem not_mem_around
    (usage : Usage)
    (l : Local) :
    l.lexeme ∉ openingLexemes usage ∧
      l.lexeme ∉ closingLexemes usage := by
  have hNone {ls : List Lexeme}
      (h : ls.filter isLocal = []) :
      l.lexeme ∉ ls := by
    intro hMem
    have hLocal := List.mem_filter.mpr
      ⟨hMem, l.isLocal_lexeme⟩
    rw [h] at hLocal
    cases hLocal
  constructor
  · apply hNone
    have hMain : (ofText "int main(void)").filter isLocal =
        [] := by
      decide +kernel
    have hHelpers : (usage.helpers.flatMap
        Helper.declarationLexemes).filter isLocal = [] := by
      rw [List.filter_flatMap, List.flatMap_eq_nil_iff]
      intro helper _
      simp [Helper.declarationLexemes,
        helper.filter_isLocal.1, isLocal]
    simp [openingLexemes, filter_isLocal_preamble, hHelpers,
      hMain, isLocal]
  · apply hNone
    have hEnd : (ofText "return 0;").filter isLocal = [] := by
      decide +kernel
    have hHelpers : (usage.helpers.flatMap
        Helper.definitionLexemes).filter isLocal = [] := by
      rw [List.filter_flatMap, List.flatMap_eq_nil_iff]
      intro helper _
      simp [Helper.definitionLexemes, helper.ofText_body,
        helper.filter_isLocal.1, helper.filter_isLocal.2,
        isLocal]
    simp [closingLexemes, hHelpers, hEnd, isLocal]

theorem ofText_source_eq
    {file unit : Text}
    (hFile : Text.occursIn "*/" file = false)
    (hUnit : unit.isAllBlank = true)
    (script : Text) :
    let program := ofScript file unit script
    ofText program.source =
      openingLexemes program.usage ++
        (Draft.ofScript file unit script).code.flatten ++
        closingLexemes program.usage := by
  intro program
  have hBlank :
      (Draft.ofScript file unit script).unit.isAllBlank =
        true := by
    rw [Draft.unit_ofScript]
    exact hUnit
  have hSource := ofText_assemble hBlank
    (Draft.readsWhole_code hFile unit script hUnit) program.usage
  refine hSource.trans ?_
  simp [sourceLexemes, mainLexemes, openingLexemes,
    closingLexemes]

/- A name of a loop is declared as often as lines declare it. -/
theorem count_declared_le_one
    {lines : List Line}
    (hLegible : ∀ line ∈ lines, line.IsLegible)
    {final : Scoping}
    (hPasses : Scoping.start.Passes lines final)
    (usage : Usage)
    {l : Local}
    (hLoop : l.loop?.isSome = true) :
    (declared (openingLexemes usage ++
      lines.flatMap Line.lexemes ++
      closingLexemes usage)).count l.name ≤ 1 := by
  rcases not_mem_around usage l with ⟨hOpening, hClosing⟩
  have hNone {behind : Bool} {ls : List Lexeme}
      (h : l.lexeme ∉ ls) :
      (declaredFrom behind ls).count l.name = 0 :=
    List.count_eq_zero_of_not_mem fun hMem =>
      h (word_mem_of_mem_declaredFrom hMem)
  have hBrace : endsInType false (openingLexemes usage) =
      false := by
    rw [openingLexemes, endsInType_append]
    simp [endsInType, isBehindType, isType]
  have hCount := (hPasses.count_declared_le_one hLoop).1
  rw [declared, declaredFrom_append, declaredFrom_append,
    List.count_append, List.count_append, hNone hOpening,
    hNone hClosing, hBrace, Line.declaredFrom_flatMap hLegible,
    Nat.zero_add, Nat.add_zero]
  refine Nat.le_trans (Nat.le_of_eq ?_) hCount
  rw [List.count, List.countP_map]
  apply List.countP_congr
  intro other _
  simp only [Function.comp_apply, beq_iff_eq]
  exact ⟨Local.eq_of_name_eq, congrArg Local.name⟩

------------------------------------------------------------
-- Programs
------------------------------------------------------------

/-
  The variables of a program are used where they are
  declared.

  They stand in the lines of the main function only.  No
  line declares two names, and no name is declared again
  before the scope of its declaration is closed.  The items
  and the index of a loop are declared at most once.  A line
  with a variable declares it first of all, or stands behind
  its declaration, inside of the scope that declares it.

  The name of the file stands in comments.  Were there `*/`
  in it, a comment would end inside of the name, whose rest
  could open and close scopes or name variables.
-/
theorem locals_declared_in_scope
    (file unit script : Text)
    (hFile : Text.occursIn "*/" file = false)
    (hUnit : unit.isAllBlank = true) :
    let program := ofScript file unit script
    let source := ofText program.source
    let code := (Draft.ofScript file unit script).code
    (source = openingLexemes program.usage ++ code.flatten ++
        closingLexemes program.usage ∧
      ∀ l : Local, l.lexeme ∉ openingLexemes program.usage ∧
        l.lexeme ∉ closingLexemes program.usage) ∧
    (∀ line ∈ code, (declared line).length ≤ 1) ∧
    (∀ a first b second c,
      code = a ++ first :: (b ++ second :: c) →
      ∀ x, x ∈ declared first → x ∈ declared second →
        ¬ StaysAbove 0 b.flatten) ∧
    (∀ loop,
      (declared source).count (Local.items loop).name ≤ 1 ∧
        (declared source).count (Local.index loop).name ≤ 1) ∧
    (∀ a line c, code = a ++ line :: c →
      ∀ l : Local, l.lexeme ∈ line →
        IsDeclaration l.name line ∨
          IsDeclaredBefore l.name a line) := by
  intro program source code
  have hSource := ofText_source_eq hFile hUnit script
  rcases Draft.exists_lines hFile unit script with
    ⟨lines, final, hCode, hLegible, hPasses, _⟩
  refine ⟨⟨hSource, not_mem_around program.usage⟩, ?_, ?_, ?_,
    ?_⟩
  · intro line hLine
    simp only [code, hCode] at hLine
    rcases List.mem_map.mp hLine with ⟨written, hWritten, rfl⟩
    rw [(Line.declared_lexemes (hLegible written hWritten)).1]
    cases written.declared? <;> simp
  · intro a first b second c hSplit x hFirst hSecond hAbove
    exact hPasses.not_staysAbove_between hLegible
      (hCode.symm.trans hSplit) hFirst hSecond hAbove
  · intro loop
    have hFlat : code.flatten =
        lines.flatMap Line.lexemes := by
      simp only [code, hCode]
      rw [← List.flatMap_def]
    have hCount {l : Local} (hLoop : l.loop?.isSome = true) :
        (declared source).count l.name ≤ 1 := by
      have hDeclared := count_declared_le_one hLegible hPasses
        program.usage hLoop
      rwa [← hFlat, ← hSource] at hDeclared
    exact ⟨hCount rfl, hCount rfl⟩
  · intro a line c hSplit l hUse
    exact hPasses.isDeclaration_or_isDeclaredBefore hLegible
      (hCode.symm.trans hSplit) hUse

/- The head of a loop declares what the line behind it uses. -/
theorem locals_declared_in_scope_of_loop :
    let script : Text := "for f in $x b\nls | wc\nfi"
    let source := ofText (ofScript "a.sh" "  " script).source
    let code := (Draft.ofScript "a.sh" "  " script).code
    let use := ofText "setenv(\"f\", sh_items_1[sh_i_1], 1);"
    Text.occursIn "*/" "a.sh" = false ∧
    Text.isAllBlank "  " = true ∧
    code = code.take 2 ++ use :: code.drop 3 ∧
    ∀ l ∈ [Local.items 1, .index 1],
      l.lexeme ∈ use ∧
      IsDeclaredBefore l.name (code.take 2) use ∧
      (declared source).count l.name ≤ 1 := by
  intro script source code use
  have hFile : Text.occursIn "*/" "a.sh" = false := by
    decide +kernel
  have hUnit : Text.isAllBlank "  " = true := by
    decide +kernel
  have hCode : code = code.take 2 ++ use :: code.drop 3 := by
    decide +kernel
  have hNone : declared use = [] := by
    decide +kernel
  have hUse : ∀ l ∈ [Local.items 1, .index 1],
      l.lexeme ∈ use := by
    decide +kernel
  rcases locals_declared_in_scope "a.sh" "  " script hFile hUnit
    with ⟨_, _, _, hCount, hScope⟩
  have hBefore : ∀ l ∈ [Local.items 1, .index 1],
      IsDeclaredBefore l.name (code.take 2) use := by
    intro l hl
    rcases hScope _ _ _ hCode l (hUse l hl) with hHere | hBefore
    · have hMem := hHere.mem_declared
      rw [hNone] at hMem
      cases hMem
    · exact hBefore
  refine ⟨hFile, hUnit, hCode, ?_⟩
  intro l hl
  refine ⟨hUse l hl, hBefore l hl, ?_⟩
  rcases List.mem_cons.mp hl with rfl | hl
  · exact (hCount 1).1
  · rw [List.mem_singleton.mp hl]
    exact (hCount 1).2

end Program

end ShellToC
