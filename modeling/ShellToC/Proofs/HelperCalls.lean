import ShellToC.Proofs.Spelling

/-
  This file shows that the text of a line calls the helpers
  that the line asks for, and names no others.

  A helper that is only named in a literal or in a comment
  is no lexeme of its own.  The names that are made up for
  the variables of a program end in a number, or are none of
  the names of helpers.

  Key definitions include:
    * `Lexeme.helper?`
    * `Lexeme.callee?`
    * `Lexeme.avoids`
    * `Lexeme.Uses`

  Main declarations:
    * `Line.uses_lexemes`
-/

namespace ShellToC

open Lexeme

------------------------------------------------------------
-- Names of Helpers
------------------------------------------------------------

namespace Helper

/- Every helper is found by its name. -/
theorem ofName?_name
    (helper : Helper) :
    ofName? helper.name = some helper := by
  have hAll : ∀ helper ∈ all,
      ofName? helper.name = some helper := by
    decide +kernel
  exact hAll helper helper.mem_all

/- What is found by a name has that name. -/
theorem name_of_ofName?
    {w : Text}
    {helper : Helper}
    (h : ofName? w = some helper) :
    helper.name = w := by
  have hFound := List.find?_some h
  simpa using hFound

/- No two helpers have the same name. -/
theorem eq_of_name_eq
    {helper other : Helper}
    (h : helper.name = other.name) :
    helper = other := by
  have hFound := helper.ofName?_name
  rw [h, other.ofName?_name] at hFound
  exact (Option.some.inj hFound).symm

/- There are no digits in the name of a helper. -/
theorem ofName?_of_any_isDigit
    {w : Text}
    (h : w.any Char.isDigit = true) :
    ofName? w = none := by
  have hAll : ∀ helper ∈ all,
      ¬ helper.name.any Char.isDigit = true := by
    decide +kernel
  cases hName : ofName? w with
  | none => rfl
  | some helper =>
      rw [← name_of_ofName? hName] at h
      exact absurd h (hAll helper helper.mem_all)

end Helper

/- There is a digit in a text that a number is part of. -/
theorem Text.any_isDigit_ofNat
    (n : Nat) :
    (ofNat n).any Char.isDigit = true := by
  cases hDigits : ofNat n with
  | nil => exact absurd hDigits Nat.toDigits_ne_nil
  | cons c rest =>
      have hc : c ∈ Nat.toDigits 10 n := by
        rw [show Nat.toDigits 10 n = c :: rest from hDigits]
        exact List.mem_cons_self
      simp [Nat.isDigit_of_mem_toDigits (by decide)
        (by decide) hc]

/-
  A function whose calls are looked for: a helper, or the one
  that prints a format.
-/
inductive Callee where
  | print
  | helper (helper : Helper)
  deriving DecidableEq, Repr

/- Whether the function is a helper. -/
def Callee.isHelper : Callee → Bool
  | .print => false
  | .helper _ => true

namespace Lexeme

/-
  The helper that the lexeme names.  The names of helpers
  start alike, so that most words need not be looked up.
-/
def helper? : Lexeme → Option Helper
  | .word ('s' :: 'h' :: '_' :: rest) =>
      Helper.ofName? ('s' :: 'h' :: '_' :: rest)
  | _ => none

theorem helper?_word
    (w : Text) :
    helper? (.word w) = Helper.ofName? w := by
  unfold helper?
  split
  · rename_i rest hWord
    rw [Lexeme.word.inj hWord]
  · rename_i hOther
    cases hName : Helper.ofName? w with
    | none => rfl
    | some helper =>
        have hStart : ∃ rest,
            helper.name = 's' :: 'h' :: '_' :: rest := by
          cases helper <;>
            exact ⟨_, Text.ofString_ofList _⟩
        rcases hStart with ⟨rest, hRest⟩
        rw [Helper.name_of_ofName? hName] at hRest
        exact absurd (congrArg word hRest) (hOther rest)

------------------------------------------------------------
-- Names of Functions
------------------------------------------------------------

/- The function that the lexeme names, if it is looked for. -/
def callee?
    (l : Lexeme) : Option Callee :=
  match l.helper? with
  | some helper => some (.helper helper)
  | none => if l = .word "printf" then some .print else none

/- Whether the lexemes name none of the given functions. -/
def avoids
    (p : Callee → Bool)
    (ls : List Lexeme) : Bool :=
  ls.all fun l => !l.callee?.any p

section

variable (p : Callee → Bool)

@[simp] theorem avoids_nil : avoids p [] = true := rfl

@[simp] theorem avoids_cons
    (l : Lexeme)
    (ls : List Lexeme) :
    avoids p (l :: ls) = (!l.callee?.any p && avoids p ls) :=
  rfl

@[simp] theorem avoids_append
    (a b : List Lexeme) :
    avoids p (a ++ b) = (avoids p a && avoids p b) :=
  List.all_append

@[simp] theorem avoids_call
    (function : Text)
    (arguments : List Lexeme) :
    avoids p (call function arguments) =
      (!(callee? (.word function)).any p &&
        avoids p arguments) := by
  simp [call, callee?, helper?]

/- Lexemes that name no function at all avoid the given ones. -/
theorem avoids_of_isNone
    {ls : List Lexeme}
    (h : ls.all (·.callee?.isNone) = true) :
    avoids p ls = true := by
  rw [avoids, List.all_eq_true]
  intro l hl
  have hNone := List.all_eq_true.mp h l hl
  rw [Option.isNone_iff_eq_none.mp hNone]
  rfl

theorem avoids_listed
    {parts : List (List Lexeme)}
    (h : ∀ part ∈ parts, avoids p part = true) :
    avoids p (listed parts) = true := by
  induction parts with
  | nil => rfl
  | cons part parts ih =>
      rw [List.forall_mem_cons] at h
      cases parts with
      | nil => simpa [listed] using h.1
      | cons next parts =>
          have hRest := ih h.2
          rw [listed] at hRest ⊢
          simp [List.intercalate_cons_cons, h.1, hRest,
            callee?, helper?]

end

theorem helper?_of_callee?
    {l : Lexeme}
    (h : l.callee? = none) :
    l.helper? = none := by
  unfold callee? at h
  split at h
  · cases h
  · assumption

@[simp] theorem callee?_sign
    (c : Char) :
    callee? (.sign c) = none := by
  simp [callee?, helper?]

@[simp] theorem callee?_quoted
    (text : Text) :
    callee? (quoted text) = none := by
  simp [callee?, helper?, quoted]

@[simp] theorem callee?_helper
    (helper : Helper) :
    callee? (.word helper.name) = some (.helper helper) := by
  rw [callee?, helper?_word, helper.ofName?_name]

/- A word with a digit in it is the name of no function. -/
theorem callee?_of_any_isDigit
    {w : Text}
    (h : w.any Char.isDigit = true) :
    callee? (.word w) = none := by
  rw [callee?, helper?_word, Helper.ofName?_of_any_isDigit h]
  refine if_neg fun hWord => ?_
  rw [Lexeme.word.inj hWord, Text.ofString_ofList] at h
  exact absurd h (by decide)

@[simp] theorem callee?_append_ofNat
    (w : Text)
    (n : Nat) :
    callee? (.word (w ++ Text.ofNat n)) = none :=
  callee?_of_any_isDigit (by simp [Text.any_isDigit_ofNat])

@[simp] theorem callee?_ofNat
    (n : Nat) :
    callee? (.word (Text.ofNat n)) = none :=
  callee?_append_ofNat [] n

/- A constant is a word with a digit in it. -/
@[simp] theorem callee?_ofNat_append
    (n : Nat)
    (w : Text) :
    callee? (.word (Text.ofNat n ++ w)) = none :=
  callee?_of_any_isDigit (by simp [Text.any_isDigit_ofNat])

@[simp] theorem callee?_statusVariable :
    callee? (.word statusVariable) = none := by
  decide +kernel

@[simp] theorem callee?_jobVariable :
    callee? (.word jobVariable) = none := by
  decide +kernel

@[simp] theorem callee?_itemsName
    (loop : Nat) :
    callee? (.word (Line.itemsName loop)) = none :=
  callee?_append_ofNat _ loop

@[simp] theorem callee?_indexName
    (loop : Nat) :
    callee? (.word (Line.indexName loop)) = none :=
  callee?_append_ofNat _ loop

@[simp] theorem callee?_temporary
    (temp : Temporary) :
    callee? (.word temp.name) = none := by
  have hFixed : ∀ temp ∈ [Temporary.command, .directory,
      .value, .output], callee? (.word temp.name) = none := by
    decide +kernel
  cases temp with
  | stage index => exact callee?_append_ofNat _ index
  | _ => exact hFixed _ (by decide)

/- The functions of the library that are not looked for. -/
abbrev libraryFunctions : List Text :=
  ["strcmp", "setenv", "chdir", "puts", "fputs", "free"]

theorem callee?_library
    {function : Text}
    (h : function ∈ libraryFunctions) :
    callee? (.word function) = none := by
  have hAll : ∀ function ∈ libraryFunctions,
      callee? (.word function) = none := by
    decide +kernel
  exact hAll function h

/- A numeral is a word with a digit in it. -/
theorem callee?_numeral
    {numeral : Text}
    (h : (Token.number numeral).IsLegible) :
    callee? (.word numeral) = none := by
  apply callee?_of_any_isDigit
  cases numeral with
  | nil => simpa using h.1
  | cons c rest =>
      have hc : c.isDigit = true := by simpa using h.1
      simp [hc]

/- The signs of a comparison name no function. -/
theorem avoids_symbol
    (p : Callee → Bool)
    (rel : Relation)
    (behind : Text)
    (h : behind ∈ [Text.ofString " ", " 0)"]) :
    avoids p (ofText (" " ++ rel.symbol ++ behind)) = true := by
  have hAll : ∀ behind ∈ [Text.ofString " ", " 0)"],
      (ofText (" " ++ rel.symbol ++ behind)).all
        (·.callee?.isNone) = true := by
    cases rel <;> decide +kernel
  exact avoids_of_isNone p (hAll behind h)

------------------------------------------------------------
-- Uses
------------------------------------------------------------

/- The lexemes call these helpers, and name no others. -/
structure Uses
    (ls : List Lexeme)
    (helpers : List Helper) : Prop where
  named : ∀ helper, .word helper.name ∈ ls →
    helper ∈ helpers
  called : ∀ helper ∈ helpers, helper.name ∈ calls ls

/- A helper that is named among lexemes is found there. -/
theorem mem_filterMap_helper?
    {ls : List Lexeme}
    {helper : Helper}
    (h : .word helper.name ∈ ls) :
    helper ∈ ls.filterMap helper? :=
  List.mem_filterMap.mpr ⟨_, h, by
    rw [helper?_word, helper.ofName?_name]⟩

/- Fixed lexemes use the helpers that are found among them. -/
theorem uses_of_filterMap
    {ls : List Lexeme}
    {helpers : List Helper}
    (hNamed : ls.filterMap helper? = helpers)
    (hCalled :
      (calls ls).filterMap (helper? ∘ word) = helpers) :
    Uses ls helpers := by
  constructor
  · intro helper hMem
    rw [← hNamed]
    exact mem_filterMap_helper? hMem
  · intro helper hMem
    rw [← hCalled] at hMem
    rcases List.mem_filterMap.mp hMem with ⟨w, hw, hName⟩
    rw [Function.comp_apply, helper?_word] at hName
    rw [Helper.name_of_ofName? hName]
    exact hw

/- Lexemes that name no helper use none. -/
theorem uses_nil
    {ls : List Lexeme}
    (h : avoids Callee.isHelper ls = true) :
    Uses ls [] := by
  constructor
  · intro helper hMem
    have hNone := List.all_eq_true.mp h _ hMem
    simp [Callee.isHelper] at hNone
  · simp

namespace Uses

/- A helper is called if and only if it is used. -/
theorem mem_calls_iff
    {ls : List Lexeme}
    {helpers : List Helper}
    (h : Uses ls helpers)
    (helper : Helper) :
    helper.name ∈ calls ls ↔ helper ∈ helpers := by
  constructor
  · intro hCall
    exact h.named helper (word_mem_of_mem_calls hCall)
  · exact h.called helper

theorem append
    {a b : List Lexeme}
    {helpers others : List Helper}
    (ha : Uses a helpers)
    (hb : Uses b others) :
    Uses (a ++ b) (helpers ++ others) := by
  constructor
  · intro helper hMem
    rcases List.mem_append.mp hMem with hMem | hMem
    · exact List.mem_append_left _ (ha.named helper hMem)
    · exact List.mem_append_right _ (hb.named helper hMem)
  · intro helper hMem
    rcases List.mem_append.mp hMem with hMem | hMem
    · exact mem_calls_append_left (ha.called helper hMem) b
    · exact mem_calls_append_right a (hb.called helper hMem)

/- Lexemes that name no helper may stand around others. -/
theorem between
    {ls : List Lexeme}
    {helpers : List Helper}
    (h : Uses ls helpers)
    (a b : List Lexeme)
    (ha : avoids Callee.isHelper a = true)
    (hb : avoids Callee.isHelper b = true) :
    Uses (a ++ ls ++ b) helpers := by
  have hAll := ((uses_nil ha).append h).append (uses_nil hb)
  rwa [List.nil_append, List.append_nil] at hAll

/- A call of a helper uses it, besides what its arguments use. -/
theorem call
    {ls : List Lexeme}
    {helpers : List Helper}
    (h : Uses ls helpers)
    (helper : Helper) :
    Uses (Lexeme.call helper.name ls)
      (helpers ++ [helper]) := by
  have hArgs := h.between [.sign '('] [.sign ')'] rfl rfl
  constructor
  · intro other hMem
    rcases List.mem_cons.mp hMem with hName | hMem
    · rw [Helper.eq_of_name_eq (Lexeme.word.inj hName)]
      simp
    · exact List.mem_append_left _ (hArgs.named other hMem)
  · intro other hMem
    rcases List.mem_append.mp hMem with hMem | hMem
    · exact mem_calls_append_right [.word helper.name]
        (hArgs.called other hMem)
    · rw [List.mem_singleton.mp hMem]
      simp [Lexeme.call, calls]

/- A call of another function uses what its arguments use. -/
theorem callOther
    {ls : List Lexeme}
    {helpers : List Helper}
    (h : Uses ls helpers)
    (function : Text)
    (hFunction : avoids Callee.isHelper [.word function] = true) :
    Uses (Lexeme.call function ls) helpers :=
  h.between [.word function, .sign '('] [.sign ')']
    (by simpa using hFunction) rfl

/- So does a call of a function of the library. -/
theorem callLibrary
    {ls : List Lexeme}
    {helpers : List Helper}
    (h : Uses ls helpers)
    (function : Text)
    (hFunction : function ∈ libraryFunctions) :
    Uses (Lexeme.call function ls) helpers :=
  h.callOther function (by simp [callee?_library hFunction])

/- A semicolon behind the lexemes makes no difference. -/
theorem statement
    {ls : List Lexeme}
    {helpers : List Helper}
    (h : Uses ls helpers) :
    Uses (ls ++ [.sign ';']) helpers :=
  h.between [] [.sign ';'] rfl rfl

/- The order in which helpers are listed makes no difference. -/
theorem perm
    {ls : List Lexeme}
    {helpers others : List Helper}
    (h : Uses ls helpers)
    (hPerm : helpers.Perm others) :
    Uses ls others :=
  ⟨fun helper hMem => hPerm.mem_iff.mp (h.named helper hMem),
   fun helper hMem => h.called helper (hPerm.mem_iff.mpr hMem)⟩

end Uses

/- Parts side by side use what each of them uses. -/
theorem uses_flatMap
    {α : Type}
    {xs : List α}
    {lexemes : α → List Lexeme}
    {needs : α → List Helper}
    (h : ∀ x ∈ xs, Uses (lexemes x) (needs x)) :
    Uses (xs.flatMap lexemes) (xs.flatMap needs) := by
  induction xs with
  | nil => exact uses_nil rfl
  | cons x xs ih =>
      rw [List.flatMap_cons, List.flatMap_cons]
      exact (h x List.mem_cons_self).append
        (ih fun y hy => h y (List.mem_cons_of_mem _ hy))

/- Parts with commas between them use what each of them uses. -/
theorem uses_listed
    {α : Type}
    {xs : List α}
    {lexemes : α → List Lexeme}
    {needs : α → List Helper}
    (h : ∀ x ∈ xs, Uses (lexemes x) (needs x)) :
    Uses (listed (xs.map lexemes)) (xs.flatMap needs) := by
  induction xs with
  | nil => exact uses_nil rfl
  | cons x xs ih =>
      have hFirst := h x List.mem_cons_self
      have hRest := ih fun y hy =>
        h y (List.mem_cons_of_mem _ hy)
      cases xs with
      | nil =>
          simpa [listed, List.intercalate] using hFirst
      | cons y ys =>
          have hComma : Uses [.sign ','] [] := uses_nil rfl
          have hAll := hFirst.append (hComma.append hRest)
          simpa [listed, List.intercalate] using hAll

end Lexeme

------------------------------------------------------------
-- Expressions
------------------------------------------------------------

theorem StringExpr.uses_lexemes
    (e : StringExpr) :
    Uses e.lexemes e.needs := by
  cases e with
  | literal text => exact uses_nil rfl
  | «variable» name =>
      have hName : Uses [quoted name] [] := uses_nil rfl
      exact hName.call .var
  | temporary temp => exact uses_nil (by simp [lexemes])

theorem IntExpr.uses_lexemes
    (e : IntExpr) :
    Uses e.lexemes e.needs := by
  cases e with
  | constant value =>
      cases value <;> exact uses_nil (by simp [lexemes])
  | ofString e => exact e.uses_lexemes.call .int
  | status => exact uses_nil (by simp [lexemes])
  | backgroundPid => exact uses_nil (by simp [lexemes])

theorem BoolExpr.uses_lexemes
    (e : BoolExpr) :
    Uses e.lexemes e.needs := by
  induction e with
  | constant value =>
      cases value <;> exact uses_nil (by decide +kernel)
  | nonempty name =>
      exact (StringExpr.variable name).uses_lexemes.between
        [.sign '('] _ rfl (by decide +kernel)
  | testPath test path =>
      exact path.uses_lexemes.call test.helper
  | compareStrings rel left right =>
      have hComma : Uses [.sign ','] [] := uses_nil rfl
      have hArgs := left.uses_lexemes.append
        (hComma.append right.uses_lexemes)
      have hCall := hArgs.callLibrary "strcmp" (by simp)
      exact hCall.between [.sign '('] _ rfl
        (avoids_symbol _ rel _ (by simp))
  | compareInts rel left right =>
      have hSymbol :
          Uses (ofText (" " ++ rel.symbol ++ " ")) [] :=
        uses_nil (avoids_symbol _ rel _ (by simp))
      have hBoth := (left.uses_lexemes.append
        hSymbol).append right.uses_lexemes
      rw [List.append_nil] at hBoth
      simpa [lexemes, needs] using
        hBoth.between [.sign '('] [.sign ')'] rfl rfl
  | not e ih =>
      simpa [lexemes, needs] using
        ih.between [.sign '!'] [] rfl rfl

theorem Token.uses_lexemes
    {token : Token}
    (h : token.IsLegible) :
    Uses token.lexemes token.needs := by
  cases token with
  | var name =>
      exact (IntExpr.ofString (.variable name)).uses_lexemes
  | number numeral =>
      exact uses_nil (by simp [lexemes, callee?_numeral h])
  | _ => exact uses_nil (by simp [lexemes])

theorem ArithExpr.uses_lexemes
    {e : ArithExpr}
    (h : e.IsLegible) :
    Uses e.lexemes e.needs :=
  (uses_flatMap fun token hToken =>
    Token.uses_lexemes (h token hToken)).between
      [.sign '('] [.sign ')'] rfl rfl

theorem FormatArg.uses_lexemes
    (arg : FormatArg) :
    Uses arg.lexemes arg.needs := by
  cases arg with
  | string e => exact e.uses_lexemes
  | _ => exact uses_nil (by simp [lexemes])

namespace FormatCall

/- The values that are filled into a format use their helpers. -/
theorem uses_arguments
    (call : FormatCall) :
    Uses (listed ([quoted call.format] ::
      call.args.map FormatArg.lexemes)) call.argNeeds := by
  have hArgs :
      Uses (listed (call.args.map FormatArg.lexemes))
        call.argNeeds :=
    uses_listed fun arg _ => arg.uses_lexemes
  cases hList : call.args with
  | nil =>
      have hNone : call.argNeeds = [] := by
        simp [argNeeds, hList]
      rw [hNone]
      exact uses_nil rfl
  | cons arg args =>
      rw [hList] at hArgs
      have hAll := hArgs.between
        [quoted call.format, .sign ','] [] rfl rfl
      simpa [listed, List.intercalate] using hAll

theorem uses_print
    (call : FormatCall) :
    Uses (call.lexemes "printf") call.argNeeds :=
  call.uses_arguments.callOther "printf" (by decide +kernel)

theorem uses_build
    (call : FormatCall) :
    Uses (call.lexemes Helper.format.name)
      call.buildNeeds :=
  (call.uses_arguments.call .format).perm
    (List.perm_append_singleton _ _)

end FormatCall

------------------------------------------------------------
-- Lines
------------------------------------------------------------

namespace Line

/- No functions are named in the parts that do not vary. -/
theorem avoids_fixed
    (p : Callee → Bool)
    {part : Text}
    (h : part ∈ fixedParts) :
    avoids p (ofText part) = true := by
  have hAll : ∀ part ∈ fixedParts,
      (ofText part).all (·.callee?.isNone) = true := by
    decide +kernel
  exact avoids_of_isNone p (hAll part h)

theorem avoids_increment
    (p : Callee → Bool) :
    avoids p (ofText "++) \x7b") = true :=
  avoids_of_isNone p (by decide +kernel)

/- A status is set with the helpers of its value. -/
theorem uses_statusLexemes
    {value : List Lexeme}
    {helpers : List Helper}
    (h : Uses value helpers) :
    Uses (statusLexemes value) helpers :=
  h.between [.word statusVariable, .sign '='] [.sign ';']
    (by simp) rfl

/- A variable of the script is set with the helpers of its value. -/
theorem uses_assignLexemes
    (name : Text)
    {value : List Lexeme}
    {helpers : List Helper}
    (h : Uses value helpers) :
    Uses (assignLexemes name value) helpers := by
  have hArgs := h.between [quoted name, .sign ',']
    (ofText ", 1") rfl (avoids_fixed _ (by simp [fixedParts]))
  have hCall := hArgs.callLibrary "setenv" (by simp)
  exact hCall.statement

/- A list in braces uses the helpers of its values. -/
theorem uses_listLexemes
    {values : List (List Lexeme)}
    {helpers : List Helper}
    (h : Uses (listed values) helpers) :
    Uses (listLexemes values) helpers :=
  h.between [.sign '\x7b'] [.sign '\x7d'] rfl rfl

/- The helpers that a line calls are those that it asks for. -/
theorem uses_lexemes
    {line : Line}
    (h : line.IsLegible) :
    Uses line.lexemes line.needs := by
  cases line with
  | marker file line message => exact uses_nil rfl
  | verbatim text => exact h.elim
  | openItems loop count =>
      exact uses_nil (by simp [lexemes, avoids_increment,
        avoids_fixed, fixedParts])
  | setStatus e =>
      exact uses_statusLexemes (e.uses_lexemes.between
        [.sign '('] _ rfl
        (avoids_fixed _ (by simp [fixedParts])))
  | run command =>
      exact uses_statusLexemes (command.uses_lexemes.call .run)
  | changeDir dir =>
      have hCall := dir.uses_lexemes.callLibrary "chdir"
        (by simp)
      exact uses_statusLexemes (hCall.between []
        (ofText " == 0 ? 0 : 1") rfl
        (avoids_fixed _ (by simp [fixedParts])))
  | startJob command =>
      exact (command.uses_lexemes.call .background).between
        [.word jobVariable, .sign '='] [.sign ';']
        (by simp) rfl
  | exit code =>
      exact code.uses_lexemes.between _ _
        (avoids_fixed _ (by simp [fixedParts]))
        (avoids_fixed _ (by simp [fixedParts]))
  | assign name value =>
      exact uses_assignLexemes name value.uses_lexemes
  | assignItem name loop =>
      exact uses_assignLexemes name (uses_nil (by simp))
  | assignInt name value =>
      have hArgs := (ArithExpr.uses_lexemes h).between
        [quoted name, .sign ','] [] rfl rfl
      rw [List.append_nil] at hArgs
      exact (hArgs.call .setInt).statement
  | printLine text =>
      have hText : Uses [quoted text] [] := uses_nil rfl
      exact (hText.callLibrary "puts" (by simp)).statement
  | printText text =>
      have hText :
          Uses (quoted text :: ofText ", stdout") [] :=
        uses_nil (by simp [avoids_fixed, fixedParts])
      exact (hText.callLibrary "fputs" (by simp)).statement
  | printFormat call =>
      exact call.uses_print.statement
  | printInt value =>
      have hArgs := (ArithExpr.uses_lexemes h).between
        (quoted "%ld\n" :: ofText ", (long)") []
        (by simp [avoids_fixed, fixedParts]) rfl
      rw [List.append_nil] at hArgs
      exact (hArgs.callOther "printf"
        (by decide +kernel)).statement
  | declareBuilt temp call =>
      have hAll := call.uses_build.between
        (ofText "char *" ++ [.word temp.name, .sign '='])
        [.sign ';'] (by simp [avoids_fixed, fixedParts])
        rfl
      simpa [lexemes, needs] using hAll
  | declareOutput command =>
      have hAll := (command.uses_lexemes.call .capture).between
        (ofText "char *" ++
          [.word Temporary.output.name, .sign '='])
        [.sign ';'] (by simp [avoids_fixed, fixedParts])
        rfl
      simpa [lexemes, needs] using hAll
  | declareStages commands =>
      have hValues := uses_listLexemes (uses_listed
        fun (command : StringExpr) (_ : command ∈ commands) =>
          command.uses_lexemes)
      have hAll := hValues.between
        (ofText "const char *sh_cmds[" ++
          .word (Text.ofNat commands.length) :: ofText "] = ")
        [.sign ';'] (by simp [avoids_fixed, fixedParts])
        rfl
      simpa [lexemes, needs] using hAll
  | declareStatuses count =>
      exact uses_nil (by
        simp [lexemes, avoids_fixed, fixedParts])
  | declareResult count =>
      have hArgs : Uses
          (ofText "sh_cmds, " ++ .word (Text.ofNat count) ::
            ofText ", sh_statuses") [] :=
        uses_nil (by simp [avoids_fixed, fixedParts])
      exact (hArgs.call .pipeline).between _ [.sign ';']
        (avoids_fixed _ (by simp [fixedParts])) rfl
  | declareItems loop items =>
      have hItems := uses_listed
        fun (text : Text) (_ : text ∈ items) =>
          @uses_nil [quoted text] rfl
      rw [List.flatMap_eq_nil_iff.mpr fun _ _ => rfl]
        at hItems
      have hValues := uses_listLexemes hItems
      have hAll := hValues.between
        (ofText "static const char *const " ++
          .word (itemsName loop) :: ofText "[] = ")
        [.sign ';'] (by simp [avoids_fixed, fixedParts])
        rfl
      simpa [lexemes, needs] using hAll
  | declareBuiltItems loop items =>
      have hValues := uses_listLexemes (uses_listed
        fun (call : FormatCall) (_ : call ∈ items) =>
          call.uses_build)
      have hAll := hValues.between
        (ofText "char *" ++
          .word (itemsName loop) :: ofText "[] = ")
        [.sign ';'] (by simp [avoids_fixed, fixedParts])
        rfl
      simpa [lexemes, needs] using hAll
  | free temp =>
      have hTemp : Uses [.word temp.name] [] :=
        uses_nil (by simp)
      exact (hTemp.callLibrary "free" (by simp)).statement
  | freeItem loop index =>
      have hItem : Uses
          [.word (itemsName loop), .sign '[',
           .word (Text.ofNat index), .sign ']'] [] :=
        uses_nil (by simp)
      exact (hItem.callLibrary "free" (by simp)).statement
  | _ => exact uses_nil (by decide +kernel)

end Line

end ShellToC
