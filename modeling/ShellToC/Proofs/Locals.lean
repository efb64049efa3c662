import ShellToC.Proofs.Braces
import ShellToC.Proofs.HelperCalls

/-
  This file finds the variables of a program in its text:
  where they are declared and where they are used.

  A word is declared if it stands right behind a type.  The
  names that are made up for variables are known by how they
  start, so that all of their uses are found.

  Key definitions include:
    * `Local`
    * `Lexeme.isNotable`
    * `Lexeme.declared`
    * `Line.locals`
    * `Line.declared?`

  Main declarations:
    * `Local.eq_of_name_eq`
    * `Line.filter_isNotable_lexemes`
    * `Line.mem_locals_of_mem_lexemes`
    * `Line.declared_lexemes`
-/

namespace ShellToC

open Lexeme

------------------------------------------------------------
-- Variables of a Program
------------------------------------------------------------

/- A variable that is made up for the main function. -/
inductive Local where
  | temporary (temp : Temporary)
  | stages
  | statuses
  | result
  | workingDir
  | items (loop : Nat)
  | index (loop : Nat)
  deriving DecidableEq, Repr

namespace Local

/- The name of the variable. -/
def name : Local → Text
  | .temporary temp => temp.name
  | .stages => "sh_cmds"
  | .statuses => "sh_statuses"
  | .result => "sh_rc"
  | .workingDir => "sh_cwd"
  | .items loop => Line.itemsName loop
  | .index loop => Line.indexName loop

/- The name of the variable as it is read. -/
def lexeme
    (l : Local) : Lexeme :=
  .word l.name

/- The loop that the variable belongs to. -/
def loop? : Local → Option Nat
  | .items loop => some loop
  | .index loop => some loop
  | _ => none

/- The number of the kind of variable that it is. -/
def kind : Local → Nat
  | .temporary .command => 0
  | .temporary (.stage _) => 1
  | .temporary .directory => 2
  | .temporary .value => 3
  | .temporary .output => 4
  | .stages => 5
  | .statuses => 6
  | .result => 7
  | .workingDir => 8
  | .items _ => 9
  | .index _ => 10

/- How the names of a kind start. -/
def stem
    (kind : Nat) : Text :=
  let stems : List Text :=
    ["sh_cmd", "sh_cmd_", "sh_dir", "sh_value", "sh_out",
     "sh_cmds", "sh_statuses", "sh_rc", "sh_cwd",
     "sh_items_", "sh_i_"]
  stems.getD kind []

/- The digits at the end of the name. -/
def digits : Local → Text
  | .temporary (.stage n) => Text.ofNat n
  | .items n => Text.ofNat n
  | .index n => Text.ofNat n
  | _ => []

theorem name_eq
    (l : Local) :
    l.name = stem l.kind ++ l.digits := by
  rcases l with ⟨_ | _⟩ | _ <;>
    simp [name, stem, kind, digits, Temporary.name,
      Line.itemsName, Line.indexName]

theorem kind_lt
    (l : Local) :
    l.kind < 11 := by
  rcases l with ⟨_ | _⟩ | _ <;> simp [kind]

/- The variable of a kind with a number. -/
def ofKind
    (n : Nat) : Nat → Local
  | 0 => .temporary .command
  | 1 => .temporary (.stage n)
  | 2 => .temporary .directory
  | 3 => .temporary .value
  | 4 => .temporary .output
  | 5 => .stages
  | 6 => .statuses
  | 7 => .result
  | 8 => .workingDir
  | 9 => .items n
  | _ => .index n

theorem ofKind_kind
    (l : Local) :
    ofKind (Nat.ofDigitChars 10 l.digits 0) l.kind = l := by
  rcases l with ⟨_ | _⟩ | _ <;>
    simp [kind, ofKind, digits, Text.ofNat,
      Nat.ofDigitChars_ten_toDigits]

/- The starts of names hold no digits, begin alike and differ. -/
theorem stem_spec :
    ∀ i < 11, (stem i).all (!Char.isDigit ·) = true ∧
      (Text.ofString "sh_").isPrefixOf (stem i) = true ∧
      ∀ j < 11, stem i = stem j → i = j := by
  decide +kernel

/- A name is known by its start and its digits. -/
theorem filter_isDigit_name
    (l : Local) :
    l.name.filter Char.isDigit = l.digits ∧
      l.name.filter (!Char.isDigit ·) = stem l.kind := by
  have hStem :=
    List.all_eq_true.mp (stem_spec l.kind l.kind_lt).1
  have hDigits : ∀ c ∈ l.digits, c.isDigit = true := by
    intro c hc
    unfold digits at hc
    split at hc
    all_goals first
      | exact Nat.isDigit_of_mem_toDigits (by decide)
          (by decide) hc
      | cases hc
  have hNone : (stem l.kind).filter Char.isDigit = [] ∧
      l.digits.filter (!Char.isDigit ·) = [] := by
    constructor
    · rw [List.filter_eq_nil_iff]
      intro c hc
      simpa using hStem c hc
    · rw [List.filter_eq_nil_iff]
      intro c hc
      simp [hDigits c hc]
  rw [name_eq, List.filter_append, List.filter_append,
    hNone.1, hNone.2, List.filter_eq_self.mpr hDigits,
    List.filter_eq_self.mpr hStem, List.nil_append,
    List.append_nil]
  exact ⟨rfl, rfl⟩

/- No two variables have the same name. -/
theorem eq_of_name_eq
    {a b : Local}
    (h : a.name = b.name) :
    a = b := by
  have hKind : a.kind = b.kind := by
    apply (stem_spec a.kind a.kind_lt).2.2 b.kind b.kind_lt
    rw [← a.filter_isDigit_name.2, h, b.filter_isDigit_name.2]
  have hDigits : a.digits = b.digits := by
    rw [← a.filter_isDigit_name.1, h, b.filter_isDigit_name.1]
  rw [← a.ofKind_kind, hKind, hDigits, b.ofKind_kind]

end Local

------------------------------------------------------------
-- Notable Words
------------------------------------------------------------

namespace Lexeme

/- The words of which the types of declarations are made up. -/
def typeWords : List Text :=
  ["char", "int", "long", "void", "const", "static", "struct",
   "size_t", "ssize_t", "pid_t", "va_list"]

/- Whether the lexeme is part of a type. -/
def isType : Lexeme → Bool
  | .word w => typeWords.contains w
  | _ => false

/- Whether the lexeme is the name of the function that frees. -/
def isFree : Lexeme → Bool
  | .word w => w == "free"
  | _ => false

/- Whether the lexeme starts like a variable and is no helper. -/
def isLocal : Lexeme → Bool
  | .word w =>
      (Text.ofString "sh_").isPrefixOf w &&
        (helper? (.word w)).isNone
  | _ => false

/- Whether the lexeme declares, frees or is a variable. -/
def isNotable
    (l : Lexeme) : Bool :=
  l.isType || l.isFree || l.isLocal

@[simp] theorem isNotable_sign
    (c : Char) :
    isNotable (.sign c) = false := rfl

@[simp] theorem isNotable_quoted
    (text : Text) :
    isNotable (quoted text) = false := rfl

/- The functions that lines call, other than helpers, and do not free. -/
def plainFunctions : List Text :=
  ["strcmp", "setenv", "chdir", "puts", "fputs", "printf"]

/- The names with a meaning in all programs are not notable. -/
theorem isNotable_global :
    ∀ w ∈ statusVariable :: jobVariable ::
        (plainFunctions ++ Helper.all.map Helper.name),
      isNotable (.word w) = false := by
  unfold plainFunctions statusVariable jobVariable
  repeat rw [Text.ofString_ofList]
  decide +kernel

@[simp] theorem isNotable_helper
    (helper : Helper) :
    isNotable (.word helper.name) = false := by
  have hName : helper.name ∈ Helper.all.map Helper.name :=
    List.mem_map_of_mem helper.mem_all
  exact isNotable_global _ (List.mem_cons_of_mem _
    (List.mem_cons_of_mem _ (List.mem_append_right _ hName)))

@[simp] theorem isNotable_statusVariable :
    isNotable (.word statusVariable) = false :=
  isNotable_global _ (by simp)

@[simp] theorem isNotable_jobVariable :
    isNotable (.word jobVariable) = false :=
  isNotable_global _ (by simp)

@[simp] theorem isNotable_free :
    isNotable (.word "free") = true := by
  simp [isNotable, isFree]

@[simp] theorem isType_free :
    isType (.word "free") = false := by
  simp [isType, typeWords, Text.ofString_inj]

theorem isNotable_function
    {w : Text}
    (h : w ∈ plainFunctions) :
    isNotable (.word w) = false :=
  isNotable_global w (by simp [h])

/- No word of a type starts like a number or a variable. -/
theorem start_of_mem_typeWords :
    ∀ v ∈ Text.ofString "free" :: typeWords,
      ¬ v.head?.any Char.isDigit = true ∧
      ¬ (Text.ofString "sh_").isPrefixOf v = true := by
  unfold typeWords
  repeat rw [Text.ofString_ofList]
  decide +kernel

/- A word that starts with a digit is a number. -/
theorem isNotable_of_isDigit
    {w : Text}
    (h : w.head?.any Char.isDigit = true) :
    isNotable (.word w) = false := by
  have hStart : (Text.ofString "sh_").isPrefixOf w = false := by
    rw [Text.ofString_eq]
    cases w with
    | nil => rfl
    | cons c rest =>
        have hc : ('s' == c) = false := by
          rw [beq_eq_false_iff_ne]
          rintro rfl
          exact absurd (show 's'.isDigit = true from h)
            (by decide)
        simp [List.isPrefixOf, hc]
  have hType : isType (.word w) = false := by
    simp only [isType, List.contains_eq_mem,
      decide_eq_false_iff_not]
    intro hMem
    exact (start_of_mem_typeWords w
      (List.mem_cons_of_mem _ hMem)).1 h
  have hFree : isFree (.word w) = false := by
    simp only [isFree, beq_eq_false_iff_ne]
    rintro rfl
    exact (start_of_mem_typeWords _ List.mem_cons_self).1 h
  simp [isNotable, hType, hFree, isLocal, hStart]

theorem head?_any_isDigit_ofNat
    (n : Nat)
    (rest : Text) :
    (Text.ofNat n ++ rest).head?.any Char.isDigit = true := by
  cases hDigits : Text.ofNat n with
  | nil => exact absurd hDigits Nat.toDigits_ne_nil
  | cons c digits =>
      have hc : c ∈ Nat.toDigits 10 n := by
        rw [show Nat.toDigits 10 n = c :: digits from hDigits]
        exact List.mem_cons_self
      simp [Nat.isDigit_of_mem_toDigits (by decide) (by decide)
        hc]

@[simp] theorem isNotable_ofNat_append
    (n : Nat)
    (rest : Text) :
    isNotable (.word (Text.ofNat n ++ rest)) = false :=
  isNotable_of_isDigit (head?_any_isDigit_ofNat n rest)

@[simp] theorem isNotable_ofNat
    (n : Nat) :
    isNotable (.word (Text.ofNat n)) = false := by
  have h := isNotable_ofNat_append n []
  rwa [List.append_nil] at h

/- A word that starts like a variable is no part of a type. -/
theorem isType_of_isLocal
    {l : Lexeme}
    (h : l.isLocal = true) :
    l.isType = false ∧ l.isFree = false := by
  cases l with
  | word w =>
      rw [isLocal, Bool.and_eq_true] at h
      constructor
      · simp only [isType, List.contains_eq_mem,
          decide_eq_false_iff_not]
        intro hMem
        exact (start_of_mem_typeWords w
          (List.mem_cons_of_mem _ hMem)).2 h.1
      · simp only [isFree, beq_eq_false_iff_ne]
        rintro rfl
        exact (start_of_mem_typeWords _
          List.mem_cons_self).2 h.1
  | literal quote inside => cases h
  | sign c => cases h

end Lexeme

/- The names of variables start like variables. -/
@[simp] theorem Local.isLocal_lexeme
    (l : Local) :
    l.lexeme.isLocal = true := by
  have hHelper : helper? (.word l.name) = none := by
    cases l with
    | temporary temp =>
        exact helper?_of_callee? (callee?_temporary temp)
    | items loop =>
        exact helper?_of_callee? (callee?_itemsName loop)
    | index loop =>
        exact helper?_of_callee? (callee?_indexName loop)
    | _ => decide +kernel
  have hStart :
      (Text.ofString "sh_").isPrefixOf l.name = true := by
    rw [List.isPrefixOf_iff_prefix, name_eq]
    exact (List.isPrefixOf_iff_prefix.mp
      (stem_spec l.kind l.kind_lt).2.1).trans
        (List.prefix_append _ _)
  simp [lexeme, isLocal, hStart, hHelper]

@[simp] theorem Local.isNotable_lexeme
    (l : Local) :
    l.lexeme.isNotable = true := by
  simp [isNotable]

@[simp] theorem Lexeme.isNotable_itemsName
    (loop : Nat) :
    isNotable (.word (Line.itemsName loop)) = true :=
  (Local.items loop).isNotable_lexeme

@[simp] theorem Lexeme.isNotable_indexName
    (loop : Nat) :
    isNotable (.word (Line.indexName loop)) = true :=
  (Local.index loop).isNotable_lexeme

@[simp] theorem Lexeme.isNotable_temporary
    (temp : Temporary) :
    isNotable (.word temp.name) = true :=
  (Local.temporary temp).isNotable_lexeme

------------------------------------------------------------
-- Fixed Parts
------------------------------------------------------------

namespace Lexeme

/- Parts of lines that do not vary and hold nothing notable. -/
abbrev plainParts : List Text :=
  [" = 0; ", ") ? 0 : 1", " == 0 ? 0 : 1", ");", ", 1",
   ", stdout", "] = ", "];", "[] = ", "++) \x7b",
   "[0] != \x27\x5c0\x27)"]

/- Parts of lines that do not vary, with what is notable. -/
def notableParts : List (Text × List Lexeme) :=
  [("char *", [.word "char"]),
   ("for (size_t ", [.word "size_t"]),
   ("return (int)(", [.word "int"]),
   (", (long)", [.word "long"]),
   ("const char *sh_cmds[",
    [.word "const", .word "char", Local.stages.lexeme]),
   ("int sh_statuses[", [.word "int", Local.statuses.lexeme]),
   ("int sh_rc = ", [.word "int", Local.result.lexeme]),
   ("sh_cmds, ", [Local.stages.lexeme]),
   (", sh_statuses", [Local.statuses.lexeme]),
   ("static const char *const ",
    [.word "static", .word "const", .word "char",
     .word "const"])]

/- What is notable in the parts, and around a relation. -/
theorem filter_isNotable_fixed :
    (∀ part ∈ plainParts, (ofText part).filter isNotable = []) ∧
    (∀ part ∈ notableParts,
      (ofText part.1).filter isNotable = part.2) ∧
    ∀ rel ∈ [Relation.eq, .ne, .lt, .le, .gt, .ge],
      (ofText (" " ++ (rel.symbol ++ " 0)"))).filter isNotable =
          [] ∧
        (ofText (" " ++ (rel.symbol ++ " "))).filter isNotable =
          [] := by
  unfold plainParts notableParts
  repeat rw [Text.ofString_ofList]
  decide +kernel

theorem filter_isNotable_plain
    {part : Text}
    (h : part ∈ plainParts) :
    (ofText part).filter isNotable = [] :=
  filter_isNotable_fixed.1 part h

theorem filter_isNotable_part
    {part : Text}
    {words : List Lexeme}
    (h : (part, words) ∈ notableParts) :
    (ofText part).filter isNotable = words :=
  filter_isNotable_fixed.2.1 (part, words) h

theorem filter_isNotable_symbol
    (rel : Relation) :
    (ofText (" " ++ (rel.symbol ++ " 0)"))).filter isNotable =
        [] ∧
      (ofText (" " ++ (rel.symbol ++ " "))).filter isNotable =
        [] :=
  filter_isNotable_fixed.2.2 rel (by cases rel <;> simp)

end Lexeme

------------------------------------------------------------
-- Variables in Expressions
------------------------------------------------------------

/- The variables that the expression uses. -/
def StringExpr.locals : StringExpr → List Local
  | .temporary temp => [.temporary temp]
  | _ => []

/- The variables that the expression uses. -/
def IntExpr.locals : IntExpr → List Local
  | .ofString e => e.locals
  | _ => []

/- The variables that the expression uses. -/
def BoolExpr.locals : BoolExpr → List Local
  | .testPath _ path => path.locals
  | .compareStrings _ left right => left.locals ++ right.locals
  | .compareInts _ left right => left.locals ++ right.locals
  | .not e => e.locals
  | _ => []

/- The variables that the value uses. -/
def FormatArg.locals : FormatArg → List Local
  | .string e => e.locals
  | _ => []

/- The variables that are filled into the format. -/
def FormatCall.locals
    (call : FormatCall) : List Local :=
  call.args.flatMap FormatArg.locals

/- Of a call, the arguments are notable if the function is not. -/
theorem filter_isNotable_call
    {function : Text}
    (h : isNotable (.word function) = false)
    (arguments : List Lexeme) :
    (call function arguments).filter isNotable =
      arguments.filter isNotable := by
  simp [call, h]

/- Commas between parts are not notable. -/
theorem filter_isNotable_listed
    (parts : List (List Lexeme)) :
    (listed parts).filter isNotable =
      parts.flatMap (·.filter isNotable) := by
  induction parts with
  | nil => rfl
  | cons part parts ih =>
      cases parts with
      | nil => simp [listed, List.intercalate]
      | cons next parts =>
          simp only [listed, List.intercalate] at ih
          simp [listed, List.intercalate, ih]

theorem StringExpr.filter_isNotable_lexemes
    (e : StringExpr) :
    e.lexemes.filter isNotable =
      e.locals.map Local.lexeme := by
  cases e with
  | literal text => simp [lexemes, locals]
  | «variable» name =>
      rw [lexemes, filter_isNotable_call (isNotable_helper _)]
      simp [locals]
  | temporary temp =>
      have hName := (Local.temporary temp).isNotable_lexeme
      change List.filter isNotable
        [(Local.temporary temp).lexeme] = _
      rw [List.filter_cons_of_pos hName]
      rfl

theorem IntExpr.filter_isNotable_lexemes
    (e : IntExpr) :
    e.lexemes.filter isNotable =
      e.locals.map Local.lexeme := by
  cases e with
  | constant value => cases value <;> simp [lexemes, locals]
  | ofString e =>
      rw [lexemes, filter_isNotable_call (isNotable_helper _)]
      exact e.filter_isNotable_lexemes
  | status => simp [lexemes, locals]
  | backgroundPid => simp [lexemes, locals]

theorem BoolExpr.filter_isNotable_lexemes
    (e : BoolExpr) :
    e.lexemes.filter isNotable =
      e.locals.map Local.lexeme := by
  induction e with
  | constant value =>
      cases value <;>
        simp [lexemes, locals, isNotable, isType, isFree, isLocal,
          Lexeme.typeWords, Text.ofString_eq]
  | nonempty name =>
      have hTest : (ofText "[0] != \x27\x5c0\x27)").filter
          isNotable = [] :=
        filter_isNotable_plain (by simp [plainParts])
      simp [lexemes, locals, hTest,
        StringExpr.filter_isNotable_lexemes,
        StringExpr.locals]
  | testPath test path =>
      rw [lexemes, filter_isNotable_call (isNotable_helper _)]
      exact path.filter_isNotable_lexemes
  | compareStrings rel left right =>
      have hCompare : isNotable (.word "strcmp") = false :=
        isNotable_function (by simp [plainFunctions])
      simp [lexemes, locals, filter_isNotable_call hCompare,
        filter_isNotable_symbol rel,
        StringExpr.filter_isNotable_lexemes]
  | compareInts rel left right =>
      simp [lexemes, locals, filter_isNotable_symbol rel,
        IntExpr.filter_isNotable_lexemes]
  | not e ih => simp [lexemes, locals, ih]

/- There are no variables of the program in arithmetic. -/
theorem ArithExpr.filter_isNotable_lexemes
    {e : ArithExpr}
    (h : e.IsLegible) :
    e.lexemes.filter isNotable = [] := by
  have hTokens :
      (e.tokens.flatMap Token.lexemes).filter isNotable =
        [] := by
    rw [List.filter_flatMap, List.flatMap_eq_nil_iff]
    intro token hToken
    cases token with
    | var name =>
        exact (IntExpr.ofString
          (.variable name)).filter_isNotable_lexemes
    | number numeral =>
        have hNumeral := isNotable_of_isDigit (h _ hToken).1
        simp [Token.lexemes, hNumeral]
    | _ => simp [Token.lexemes]
  simp [lexemes, hTokens]

theorem FormatCall.filter_isNotable_lexemes
    {function : Text}
    (h : isNotable (.word function) = false)
    (call : FormatCall) :
    (call.lexemes function).filter isNotable =
      call.locals.map Local.lexeme := by
  have hArg (arg : FormatArg) :
      arg.lexemes.filter isNotable =
        arg.locals.map Local.lexeme := by
    cases arg with
    | string e => exact e.filter_isNotable_lexemes
    | status => simp [FormatArg.lexemes, FormatArg.locals]
    | backgroundPid => simp [FormatArg.lexemes, FormatArg.locals]
  rw [lexemes, filter_isNotable_call h, filter_isNotable_listed]
  simp [locals, List.flatMap_map, List.map_flatMap, hArg]

------------------------------------------------------------
-- Variables in Lines
------------------------------------------------------------

namespace Line

/- The variables that the line uses or declares, in order. -/
def locals : Line → List Local
  | .openItems loop _ => [.index loop, .index loop, .index loop]
  | .openOnWorkingDir => [.workingDir, .workingDir]
  | .setStatus e => e.locals
  | .setPipelineStatus => [.result, .result]
  | .run command => command.locals
  | .changeDir dir => dir.locals
  | .startJob command => command.locals
  | .exit code => code.locals
  | .assign _ value => value.locals
  | .assignItem _ loop => [.items loop, .index loop]
  | .printFormat call => call.locals
  | .printWorkingDir => [.workingDir]
  | .declareBuilt temp call => .temporary temp :: call.locals
  | .declareOutput command =>
      .temporary .output :: command.locals
  | .declareStages commands =>
      .stages :: commands.flatMap StringExpr.locals
  | .declareStatuses _ => [.statuses]
  | .declareResult _ => [.result, .stages, .statuses]
  | .declareWorkingDir => [.workingDir]
  | .declareItems loop _ => [.items loop]
  | .declareBuiltItems loop items =>
      .items loop :: items.flatMap FormatCall.locals
  | .free temp => [.temporary temp]
  | .freeItem loop _ => [.items loop]
  | _ => []

/- The variable that the line declares. -/
def declared? : Line → Option Local
  | .openItems loop _ => some (.index loop)
  | .declareBuilt temp _ => some (.temporary temp)
  | .declareOutput _ => some (.temporary .output)
  | .declareStages _ => some .stages
  | .declareStatuses _ => some .statuses
  | .declareResult _ => some .result
  | .declareWorkingDir => some .workingDir
  | .declareItems loop _ => some (.items loop)
  | .declareBuiltItems loop _ => some (.items loop)
  | _ => none

/- The words of types in the line, in declarations and casts. -/
def typeWords : Line → List Text
  | .openItems _ _ => ["size_t"]
  | .exit _ => ["int"]
  | .printInt _ => ["long"]
  | .declareBuilt _ _ => ["char"]
  | .declareOutput _ => ["char"]
  | .declareStages _ => ["const", "char"]
  | .declareStatuses _ => ["int"]
  | .declareResult _ => ["int"]
  | .declareWorkingDir => ["char"]
  | .declareItems _ _ => ["static", "const", "char", "const"]
  | .declareBuiltItems _ _ => ["char"]
  | _ => []

/- Whether the line frees something. -/
def frees : Line → Bool
  | .free _ => true
  | .freeItem _ _ => true
  | _ => false

/- The notable words of the line, in order. -/
def notable
    (line : Line) : List Lexeme :=
  line.typeWords.map .word ++
    (if line.frees then [.word "free"] else []) ++
    line.locals.map Local.lexeme

theorem filter_isNotable_statusLexemes
    (value : List Lexeme) :
    (statusLexemes value).filter isNotable =
      value.filter isNotable := by
  simp [statusLexemes]

theorem filter_isNotable_assignLexemes
    (name : Text)
    (value : List Lexeme) :
    (assignLexemes name value).filter isNotable =
      value.filter isNotable := by
  have hSet : isNotable (.word "setenv") = false :=
    isNotable_function (by simp [plainFunctions])
  have hOne : (ofText ", 1").filter isNotable = [] :=
    filter_isNotable_plain (by simp [plainParts])
  simp [assignLexemes, filter_isNotable_call hSet, hOne]

theorem filter_isNotable_listLexemes
    (values : List (List Lexeme)) :
    (listLexemes values).filter isNotable =
      values.flatMap (·.filter isNotable) := by
  simp [listLexemes, filter_isNotable_listed]

/- The notable words of a line are those of its text. -/
theorem filter_isNotable_lexemes
    {line : Line}
    (h : line.IsLegible) :
    line.lexemes.filter isNotable = line.notable := by
  have hFormat := isNotable_helper .format
  have hChar : (ofText "char *").filter isNotable =
      [.word "char"] :=
    filter_isNotable_part (by simp [notableParts])
  have hFixed : ∀ line ∈ [Line.openScope, .openOnSuccess,
      .openOnFailure, .openForever, .openNever,
      .openOnWorkingDir, .openElse, .close, .leaveLoop,
      .succeed, .failed, .invertStatus, .setJobStatus,
      .setPipelineStatus, .printWorkingDir, .declareWorkingDir],
      line.lexemes.filter isNotable = line.notable := by
    decide +kernel
  cases line with
  | marker file line message => rfl
  | verbatim text => exact h.elim
  | openItems loop count =>
      have hSize : (ofText "for (size_t ").filter isNotable =
          [.word "size_t"] :=
        filter_isNotable_part (by simp [notableParts])
      simp [lexemes, hSize, filter_isNotable_plain, notable,
        typeWords, frees, locals, Local.lexeme, Local.name]
  | setStatus e =>
      simp [lexemes, filter_isNotable_statusLexemes,
        filter_isNotable_plain, e.filter_isNotable_lexemes,
        notable, typeWords, frees, locals]
  | run command =>
      simp [lexemes, filter_isNotable_statusLexemes,
        filter_isNotable_call, command.filter_isNotable_lexemes,
        notable, typeWords, frees, locals]
  | changeDir dir =>
      have hChange : isNotable (.word "chdir") = false :=
        isNotable_function (by simp [plainFunctions])
      simp [lexemes, filter_isNotable_statusLexemes,
        filter_isNotable_call, hChange, filter_isNotable_plain,
        dir.filter_isNotable_lexemes, notable, typeWords, frees,
        locals]
  | startJob command =>
      simp [lexemes, filter_isNotable_call,
        command.filter_isNotable_lexemes, notable, typeWords,
        frees, locals]
  | exit code =>
      have hInt : (ofText "return (int)(").filter isNotable =
          [.word "int"] :=
        filter_isNotable_part (by simp [notableParts])
      simp [lexemes, hInt, filter_isNotable_plain,
        code.filter_isNotable_lexemes, notable, typeWords,
        frees, locals]
  | assign name value =>
      simp [lexemes, filter_isNotable_assignLexemes,
        value.filter_isNotable_lexemes, notable, typeWords,
        frees, locals]
  | assignItem name loop =>
      simp [lexemes, filter_isNotable_assignLexemes, notable,
        typeWords, frees, locals, Local.lexeme, Local.name]
  | assignInt name value =>
      simp [lexemes, filter_isNotable_call,
        ArithExpr.filter_isNotable_lexemes h, notable,
        typeWords, frees, locals]
  | printLine text =>
      have hPut : isNotable (.word "puts") = false :=
        isNotable_function (by simp [plainFunctions])
      simp [lexemes, filter_isNotable_call, hPut, notable,
        typeWords, frees, locals]
  | printText text =>
      have hPut : isNotable (.word "fputs") = false :=
        isNotable_function (by simp [plainFunctions])
      simp [lexemes, filter_isNotable_call, hPut,
        filter_isNotable_plain, notable, typeWords, frees,
        locals]
  | printFormat call =>
      have hPrint : isNotable (.word "printf") = false :=
        isNotable_function (by simp [plainFunctions])
      simp [lexemes, call.filter_isNotable_lexemes hPrint,
        notable, typeWords, frees, locals]
  | printInt value =>
      have hPrint : isNotable (.word "printf") = false :=
        isNotable_function (by simp [plainFunctions])
      have hLong : (ofText ", (long)").filter isNotable =
          [.word "long"] :=
        filter_isNotable_part (by simp [notableParts])
      simp [lexemes, filter_isNotable_call hPrint, hLong,
        ArithExpr.filter_isNotable_lexemes h, notable,
        typeWords, frees, locals]
  | declareBuilt temp call =>
      simp [lexemes, hChar, call.filter_isNotable_lexemes hFormat,
        notable, typeWords, frees, locals, Local.lexeme,
        Local.name]
  | declareOutput command =>
      simp [lexemes, hChar, filter_isNotable_call,
        command.filter_isNotable_lexemes, notable, typeWords,
        frees, locals, Local.lexeme, Local.name]
  | declareStages commands =>
      have hStages : (ofText "const char *sh_cmds[").filter
          isNotable = [.word "const", .word "char",
            Local.stages.lexeme] :=
        filter_isNotable_part (by simp [notableParts])
      simp [lexemes, hStages, filter_isNotable_plain,
        filter_isNotable_listLexemes, List.flatMap_map,
        List.map_flatMap, StringExpr.filter_isNotable_lexemes,
        notable, typeWords, frees, locals]
  | declareStatuses count =>
      have hStatuses : (ofText "int sh_statuses[").filter
          isNotable = [.word "int", Local.statuses.lexeme] :=
        filter_isNotable_part (by simp [notableParts])
      simp [lexemes, hStatuses, filter_isNotable_plain, notable,
        typeWords, frees, locals]
  | declareResult count =>
      have hResult : (ofText "int sh_rc = ").filter isNotable =
          [.word "int", Local.result.lexeme] :=
        filter_isNotable_part (by simp [notableParts])
      have hArgs : (ofText "sh_cmds, ").filter isNotable =
            [Local.stages.lexeme] ∧
          (ofText ", sh_statuses").filter isNotable =
            [Local.statuses.lexeme] :=
        ⟨filter_isNotable_part (by simp [notableParts]),
          filter_isNotable_part (by simp [notableParts])⟩
      simp [lexemes, hResult, hArgs, filter_isNotable_call,
        notable, typeWords, frees, locals]
  | declareItems loop items =>
      have hType : (ofText "static const char *const ").filter
          isNotable = [.word "static", .word "const",
            .word "char", .word "const"] :=
        filter_isNotable_part (by simp [notableParts])
      simp [lexemes, hType, filter_isNotable_plain,
        filter_isNotable_listLexemes, List.flatMap_map,
        notable, typeWords, frees, locals, Local.lexeme,
        Local.name]
  | declareBuiltItems loop items =>
      simp [lexemes, hChar, filter_isNotable_plain,
        filter_isNotable_listLexemes, List.flatMap_map,
        List.map_flatMap,
        FormatCall.filter_isNotable_lexemes hFormat, notable,
        typeWords, frees, locals, Local.lexeme, Local.name]
  | free temp =>
      simp [lexemes, call, notable, typeWords, frees, locals,
        Local.lexeme, Local.name]
  | freeItem loop index =>
      simp [lexemes, call, notable, typeWords, frees, locals,
        Local.lexeme, Local.name]
  | _ => exact hFixed _ (by simp)

theorem isType_of_mem_typeWords
    {line : Line}
    {w : Text}
    (h : w ∈ line.typeWords) :
    isType (.word w) = true := by
  have hAll : ∀ w ∈ (["size_t", "int", "long", "char",
      "const", "static"] : List Text),
      isType (.word w) = true := by
    simp [isType, Lexeme.typeWords]
  have hSubset : line.typeWords ⊆ ["size_t", "int", "long",
      "char", "const", "static"] := by
    cases line <;> simp [typeWords]
  exact hAll w (hSubset h)

/- The words of types among lexemes are notable. -/
theorem filter_isType_filter_isNotable
    (ls : List Lexeme) :
    (ls.filter isNotable).filter isType = ls.filter isType := by
  rw [List.filter_filter]
  congr 1
  funext l
  cases hType : isType l <;> simp [isNotable, hType]

theorem filter_isType_typeWords
    (line : Line) :
    (line.typeWords.map Lexeme.word).filter isType =
      line.typeWords.map .word := by
  rw [List.filter_eq_self]
  intro l hl
  rcases List.mem_map.mp hl with ⟨w, hw, rfl⟩
  exact isType_of_mem_typeWords hw

/- The words of types in a line are those of its text. -/
theorem filter_isType_lexemes
    {line : Line}
    (h : line.IsLegible) :
    line.lexemes.filter isType = line.typeWords.map .word := by
  have hLocals :
      (line.locals.map Local.lexeme).filter isType = [] := by
    rw [List.filter_eq_nil_iff]
    intro l hl
    rcases List.mem_map.mp hl with ⟨x, _, rfl⟩
    simp [(isType_of_isLocal x.isLocal_lexeme).1]
  rw [← filter_isType_filter_isNotable,
    filter_isNotable_lexemes h, notable, List.filter_append,
    List.filter_append, filter_isType_typeWords, hLocals]
  cases line.frees <;> simp

/- A variable in the text of a line is one that it uses. -/
theorem mem_locals_of_mem_lexemes
    {line : Line}
    (h : line.IsLegible)
    {l : Local}
    (hMem : l.lexeme ∈ line.lexemes) :
    l ∈ line.locals := by
  have hNotable : l.lexeme ∈ line.notable := by
    rw [← filter_isNotable_lexemes h]
    exact List.mem_filter.mpr ⟨hMem, l.isNotable_lexeme⟩
  have hOther := isType_of_isLocal l.isLocal_lexeme
  rcases List.mem_append.mp hNotable with hFirst | hLocal
  · rcases List.mem_append.mp hFirst with hType | hFree
    · rcases List.mem_map.mp hType with ⟨w, hw, hEq⟩
      rw [← hEq, isType_of_mem_typeWords hw] at hOther
      cases hOther.1
    · split at hFree
      · rw [List.mem_singleton.mp hFree] at hOther
        simp [isFree] at hOther
      · cases hFree
  · rcases List.mem_map.mp hLocal with ⟨x, hx, hEq⟩
    rwa [← Local.eq_of_name_eq (Lexeme.word.inj hEq)]

/- Only lines that free something name the function that does. -/
theorem frees_of_mem_lexemes
    {line : Line}
    (h : line.IsLegible)
    (hMem : .word "free" ∈ line.lexemes) :
    line.frees = true := by
  have hNotable : .word "free" ∈ line.notable := by
    rw [← filter_isNotable_lexemes h]
    exact List.mem_filter.mpr ⟨hMem, isNotable_free⟩
  rcases List.mem_append.mp hNotable with hFirst | hLocal
  · rcases List.mem_append.mp hFirst with hType | hFrees
    · rcases List.mem_map.mp hType with ⟨w, hw, hEq⟩
      have hWord := isType_of_mem_typeWords hw
      rw [hEq, isType_free] at hWord
      cases hWord
    · split at hFrees
      · assumption
      · cases hFrees
  · rcases List.mem_map.mp hLocal with ⟨x, _, hEq⟩
    have hOther := (isType_of_isLocal x.isLocal_lexeme).2
    rw [hEq] at hOther
    simp [isFree] at hOther

end Line

------------------------------------------------------------
-- Declarations
------------------------------------------------------------

namespace Lexeme

/- Whether what follows a lexeme stands right behind a type. -/
def isBehindType
    (behind : Bool)
    (l : Lexeme) : Bool :=
  l.isType || behind && l == .sign '*'

/- The words right behind a type, with stars at most between. -/
def declaredFrom : Bool → List Lexeme → List Text
  | _, [] => []
  | behind, .word w :: rest =>
      (if behind && !isType (.word w) then [w] else []) ++
        declaredFrom (isBehindType behind (.word w)) rest
  | behind, l :: rest =>
      declaredFrom (isBehindType behind l) rest

/- The words that are declared. -/
def declared
    (ls : List Lexeme) : List Text :=
  declaredFrom false ls

/- Whether what follows stands right behind a type. -/
def endsInType
    (behind : Bool)
    (ls : List Lexeme) : Bool :=
  ls.foldl isBehindType behind

theorem declaredFrom_append
    (behind : Bool)
    (a b : List Lexeme) :
    declaredFrom behind (a ++ b) =
      declaredFrom behind a ++
        declaredFrom (endsInType behind a) b := by
  induction a generalizing behind with
  | nil => rfl
  | cons l a ih =>
      cases l <;> simp [declaredFrom, endsInType, ih]

theorem endsInType_append
    (behind : Bool)
    (a b : List Lexeme) :
    endsInType behind (a ++ b) =
      endsInType (endsInType behind a) b :=
  List.foldl_append

/- A declared word is a word. -/
theorem word_mem_of_mem_declaredFrom
    {behind : Bool}
    {ls : List Lexeme}
    {x : Text}
    (h : x ∈ declaredFrom behind ls) :
    .word x ∈ ls := by
  induction ls generalizing behind with
  | nil => cases h
  | cons l ls ih =>
      cases l with
      | word w =>
          rcases List.mem_append.mp h with hFirst | hRest
          · split at hFirst
            · rw [List.mem_singleton.mp hFirst]
              exact List.mem_cons_self
            · cases hFirst
          · exact List.mem_cons_of_mem _ (ih hRest)
      | literal quote inside =>
          exact List.mem_cons_of_mem _ (ih h)
      | sign c => exact List.mem_cons_of_mem _ (ih h)

/- Where there is no type, nothing is declared. -/
theorem declaredFrom_of_filter_isType
    {ls : List Lexeme}
    (h : ls.filter isType = []) :
    declaredFrom false ls = [] ∧
      endsInType false ls = false := by
  induction ls with
  | nil => exact ⟨rfl, rfl⟩
  | cons l ls ih =>
      rw [List.filter_eq_nil_iff, List.forall_mem_cons] at h
      have hRest := ih (List.filter_eq_nil_iff.mpr h.2)
      have hNext : isBehindType false l = false := by
        simp [isBehindType, h.1]
      cases l <;>
        simpa [declaredFrom, endsInType, hNext] using hRest

/- A type that is no declaration, if no types follow it. -/
theorem declaredFrom_of_cast
    {p q : List Lexeme}
    (hp : declaredFrom false p = [] ∧
      endsInType false p = false)
    (hq : q.filter isType = []) :
    declaredFrom false (p ++ q) = [] ∧
      endsInType false (p ++ q) = false := by
  have hRest := declaredFrom_of_filter_isType hq
  rw [declaredFrom_append, endsInType_append, hp.1, hp.2]
  exact hRest

/- One word behind a type is declared, if no types follow it. -/
theorem declaredFrom_of_split
    {p q : List Lexeme}
    {x : Text}
    (hp : declaredFrom false p = [] ∧
      endsInType false p = true)
    (hx : isType (.word x) = false)
    (hq : q.filter isType = []) :
    declaredFrom false (p ++ .word x :: q) = [x] ∧
      endsInType false (p ++ .word x :: q) = false := by
  have hRest := declaredFrom_of_filter_isType hq
  have hNext : isBehindType true (.word x) = false := by
    simp [isBehindType, hx]
  constructor
  · rw [declaredFrom_append, hp.1, hp.2, declaredFrom, hNext,
      hRest.1, hx]
    rfl
  · rw [endsInType_append, hp.2]
    simp only [endsInType, List.foldl_cons, hNext]
    exact hRest.2

end Lexeme

namespace Line

/- How a declaration starts, before the name of its variable. -/
def declarator : Line → Text
  | .openItems _ _ => "for (size_t "
  | .declareStages _ => "const char *"
  | .declareStatuses _ => "int "
  | .declareResult _ => "int "
  | .declareWorkingDir => "char "
  | .declareItems _ _ => "static const char *const "
  | _ => "char *"

/- The starts of declarations, each with its words. -/
def declarators : List (Text × List Text) :=
  [("for (size_t ", ["size_t"]),
   ("const char *", ["const", "char"]),
   ("int ", ["int"]),
   ("char ", ["char"]),
   ("static const char *const ",
    ["static", "const", "char", "const"]),
   ("char *", ["char"])]

/- A start of a declaration is a type and nothing else. -/
theorem declarators_spec :
    ∀ start ∈ declarators,
      (ofText start.1).filter isNotable = start.2.map .word ∧
        declaredFrom false (ofText start.1) = [] ∧
        endsInType false (ofText start.1) = true := by
  unfold declarators
  repeat rw [Text.ofString_ofList]
  decide +kernel

/- A declaration starts with a type, which ends right there. -/
theorem declaredFrom_declarator
    (line : Line) :
    declaredFrom false (ofText line.declarator) = [] ∧
      endsInType false (ofText line.declarator) = true := by
  have hStart : line.declarator ∈ declarators.map Prod.fst := by
    cases line <;> simp [declarator, declarators]
  rcases List.mem_map.mp hStart with ⟨start, hMem, hEq⟩
  rw [← hEq]
  exact (declarators_spec start hMem).2

theorem filter_isNotable_declarator
    {line : Line}
    {l : Local}
    (h : line.declared? = some l) :
    (ofText line.declarator).filter isNotable =
      line.typeWords.map .word := by
  refine (declarators_spec (line.declarator, line.typeWords)
    ?_).1
  cases line <;>
    simp_all [declarator, declarators, typeWords, declared?]

theorem declarator_prefix_lexemes
    {line : Line}
    {l : Local}
    (h : line.declared? = some l) :
    ofText line.declarator ++ [l.lexeme] <+: line.lexemes := by
  cases line with
  | declareStages commands =>
      cases h
      have hHead : ofText "const char *sh_cmds[" =
          ofText "const char *" ++
            [Local.stages.lexeme, .sign '['] := by
        unfold Local.lexeme Local.name
        repeat rw [Text.ofString_ofList]
        decide
      simp [lexemes, declarator, hHead]
  | declareStatuses count =>
      cases h
      have hHead : ofText "int sh_statuses[" =
          ofText "int " ++
            [Local.statuses.lexeme, .sign '['] := by
        unfold Local.lexeme Local.name
        repeat rw [Text.ofString_ofList]
        decide
      simp [lexemes, declarator, hHead]
  | declareResult count =>
      cases h
      have hHead : ofText "int sh_rc = " =
          ofText "int " ++
            [Local.result.lexeme, .sign '='] := by
        unfold Local.lexeme Local.name
        repeat rw [Text.ofString_ofList]
        decide
      simp [lexemes, declarator, hHead]
  | declareWorkingDir =>
      cases h
      decide +kernel
  | openItems loop count =>
      cases h
      simp [lexemes, declarator, Local.lexeme, Local.name]
  | declareBuilt temp call =>
      cases h
      simp [lexemes, declarator, Local.lexeme, Local.name]
  | declareOutput command =>
      cases h
      simp [lexemes, declarator, Local.lexeme, Local.name]
  | declareItems loop items =>
      cases h
      simp [lexemes, declarator, Local.lexeme, Local.name]
  | declareBuiltItems loop items =>
      cases h
      simp [lexemes, declarator, Local.lexeme, Local.name]
  | _ => cases h

/- The first use of a declared variable is its declaration. -/
theorem exists_declaration
    {line : Line}
    {l : Local}
    (h : line.declared? = some l) :
    ∃ p q, line.lexemes = p ++ l.lexeme :: q ∧
      l.lexeme ∉ p ∧ l.name ∈ declared (p ++ [l.lexeme]) := by
  rcases declarator_prefix_lexemes h with ⟨q, hSplit⟩
  have hLocal := (isType_of_isLocal l.isLocal_lexeme).1
  refine ⟨ofText line.declarator, q, by simp [← hSplit], ?_, ?_⟩
  · intro hMem
    have hNotable := List.mem_filter.mpr
      ⟨hMem, l.isNotable_lexeme⟩
    rw [filter_isNotable_declarator h] at hNotable
    rcases List.mem_map.mp hNotable with ⟨w, hw, hEq⟩
    rw [← hEq, isType_of_mem_typeWords hw] at hLocal
    cases hLocal
  · have hDeclared := declaredFrom_of_split
      line.declaredFrom_declarator hLocal List.filter_nil
    rw [declared, Local.lexeme, hDeclared.1]
    exact List.mem_singleton_self _

/- A line declares the variable that its text declares. -/
theorem declared_lexemes
    {line : Line}
    (h : line.IsLegible) :
    declared line.lexemes =
        line.declared?.toList.map Local.name ∧
      endsInType false line.lexemes = false := by
  have hTypes := filter_isType_lexemes h
  cases hDeclared : line.declared? with
  | some l =>
      rcases declarator_prefix_lexemes hDeclared with
        ⟨q, hSplit⟩
      have hLocal := (isType_of_isLocal l.isLocal_lexeme).1
      have hHead : (ofText line.declarator).filter isType =
          line.typeWords.map .word := by
        rw [← filter_isType_filter_isNotable,
          filter_isNotable_declarator hDeclared,
          filter_isType_typeWords]
      have hRest : q.filter isType = [] := by
        rw [← hSplit, List.filter_append, List.filter_append,
          hHead, List.filter_cons_of_neg (by simp [hLocal])]
          at hTypes
        simpa using hTypes
      have hAll := declaredFrom_of_split
        line.declaredFrom_declarator hLocal hRest
      rw [← hSplit, List.append_assoc]
      exact hAll
  | none =>
      have hCast {p q : List Lexeme}
          (hSplit : line.lexemes = p ++ q)
          (hHead : p.filter isType = line.typeWords.map .word)
          (hp : declaredFrom false p = [] ∧
            endsInType false p = false) :
          declared line.lexemes = [] ∧
            endsInType false line.lexemes = false := by
        rw [hSplit, List.filter_append, hHead] at hTypes
        rw [hSplit]
        exact declaredFrom_of_cast hp (by simpa using hTypes)
      cases line with
      | exit code =>
          have hInt : (ofText "return (int)(").filter isType =
              [.word "int"] := by
            decide +kernel
          exact hCast (List.append_assoc _ _ _) hInt
            (by decide +kernel)
      | printInt value =>
          have hLong : (.word "printf" :: .sign '(' ::
              quoted "%ld\n" :: ofText ", (long)").filter
                isType = [.word "long"] := by
            decide +kernel
          refine hCast
            (q := value.lexemes ++ [.sign ')', .sign ';']) ?_
            hLong (by decide +kernel)
          simp [lexemes, call]
      | openItems loop count => cases hDeclared
      | declareBuilt temp call => cases hDeclared
      | declareOutput command => cases hDeclared
      | declareStages commands => cases hDeclared
      | declareStatuses count => cases hDeclared
      | declareResult count => cases hDeclared
      | declareWorkingDir => cases hDeclared
      | declareItems loop items => cases hDeclared
      | declareBuiltItems loop items => cases hDeclared
      | _ => exact hCast (List.nil_append _).symm rfl ⟨rfl, rfl⟩

end Line

end ShellToC
