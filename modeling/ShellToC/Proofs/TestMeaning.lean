import ShellToC.Condition.Basic
import ShellToC.Proofs.ExprMeaning
import ShellToC.Proofs.FormatCalls
import ShellToC.Proofs.Quiet

/-
  This file compares what a test asks with the C expression
  that it becomes.

  A test is read from its words by rules of its own, and
  asks something of the strings that its words stand for.
  The C expression is true exactly if the test holds, unless
  the test compares integers and one of its words is the
  numeral of the least integer of 64 bits.  That numeral
  becomes a constant that C has no type for.

  Key definitions include:
    * `Test`
    * `Test.Reads`
    * `Test.holds`
    * `Test.comparesLeast`

  Main declarations:
    * `Test.Reads.ofWords_eq`
    * `Test.value?_of_expr?`
    * `Condition.render_agrees_iff`
-/

namespace ShellToC

------------------------------------------------------------
-- Operands
------------------------------------------------------------

/- The name of a reference is a name. -/
theorem Reference.isName_of_atHead?
    {text after name : Text}
    {ref : Reference}
    (h : atHead? text = some (ref, after))
    (hRef : ref = .braced name ∨ ref = .named name) :
    Text.isName name = true := by
  unfold atHead? at h
  split at h
  · split at h
    · cases h
      rcases hRef with hRef | hRef <;> contradiction
    · contradiction
  · split at h
    · rename_i hName
      cases h
      rcases hRef with hRef | hRef
      · cases hRef
        exact (Pattern.name?_eq_some_iff.mp hName).2.1
      · contradiction
    · contradiction
  · cases h
    rcases hRef with hRef | hRef <;> contradiction
  · cases h
    rcases hRef with hRef | hRef <;> contradiction
  · rcases Option.map_eq_some_iff.mp h with
      ⟨⟨found, rest⟩, hName, hPair⟩
    cases hPair
    rcases hRef with hRef | hRef
    · contradiction
    · cases hRef
      exact (Pattern.name?_eq_some_iff.mp hName).2.1
  · contradiction

/- The variables that a text refers to have names. -/
theorem Reference.isName_of_mem_atoms
    {text name : Text}
    (h : .value (.var name) ∈ atoms .fill text) :
    Text.isName name = true := by
  fun_induction atoms .fill text with
  | case1 text ref after hHead ih =>
      rcases List.mem_append.mp h with hRef | hAfter
      · refine isName_of_atHead? hHead ?_
        cases ref with
        | escaped c =>
            simp [Fragment.ofReference, Fragment.atoms] at hRef
        | braced found =>
            left
            simpa [Fragment.ofReference, Fragment.ofName,
              Fragment.atoms, eq_comm] using hRef
        | named found =>
            right
            simpa [Fragment.ofReference, Fragment.ofName,
              Fragment.atoms, eq_comm] using hRef
        | status =>
            simp [Fragment.ofReference, Fragment.atoms] at hRef
        | backgroundPid =>
            simp [Fragment.ofReference, Fragment.atoms] at hRef
      · exact ih hAfter
  | case2 => simp at h
  | case3 c rest hHead ih =>
      rcases List.mem_cons.mp h with hChar | hRest
      · contradiction
      · exact ih hRest

namespace Operand

/- Whether the operand is a variable or a literal of ASCII characters. -/
def isPlain : Operand → Bool
  | .value (.var _) => true
  | .value _ => false
  | .literal text => text.isPlain

/- The string that a plain operand stands for. -/
def string
    (w : World) : Operand → CString
  | .value (.var name) => w.var name
  | .value _ => .empty
  | .literal text => (CString.ofText? text).getD .empty

/- Whether the operand is a numeral of the least integer of 64 bits. -/
def isLeast : Operand → Bool
  | .value _ => false
  | .literal text =>
      Text.toInt64? (Text.trim text) ==
        some (-9223372036854775808)

/- The variable that an operand stands for has a name. -/
theorem isName_of_ofWord
    {word name : Text}
    (h : ofWord word = .ok (.value (.var name))) :
    Text.isName name = true := by
  have hDenotes := Template.denotes_ofWord word
  unfold ofWord at h
  split at h
  · cases h
  · split at h
    · rename_i arg hSingle
      cases h
      have hArgs := hDenotes.args_eq
      have hMem : .var name ∈ (Template.ofWord word).args := by
        rw [Template.args_of_single? hSingle]
        exact List.mem_singleton_self _
      rw [hArgs, List.mem_filterMap] at hMem
      rcases hMem with ⟨atom, hAtom, hValue⟩
      cases atom with
      | char c => contradiction
      | value arg =>
          cases hValue
          exact Reference.isName_of_mem_atoms hAtom
    · contradiction

section Plain

variable {word : Text} {operand : Operand}
  (hWord : ofWord word = .ok operand)
  (hPlain : operand.isPlain = true)
  (w : World)

include hWord hPlain

/- The C string of a plain operand is the one that it stands for. -/
theorem exists_stringExpr?
    : ∃ e, operand.stringExpr? = some e ∧
      e.value? w = some (operand.string w) := by
  cases operand with
  | value arg =>
      cases arg with
      | var name =>
          refine ⟨.variable name, rfl, ?_⟩
          exact StringExpr.value?_variable w
            (isName_of_ofWord hWord)
      | status => contradiction
      | backgroundPid => contradiction
  | literal text =>
      refine ⟨.literal text, rfl, ?_⟩
      have hString : CString.ofText? text = some ⟨text, _⟩ :=
        dif_pos hPlain
      simp [StringExpr.value?, hString, string]

/- Whether a plain operand is not empty. -/
theorem value?_nonemptyExpr :
    operand.nonemptyExpr.value? w =
      some (!(operand.string w).text.isEmpty) := by
  rcases exists_stringExpr? hWord hPlain w with
    ⟨e, hExpr, hValue⟩
  cases operand with
  | value arg =>
      cases arg with
      | var name =>
          cases hExpr
          simp [nonemptyExpr, BoolExpr.value?, hValue]
      | status => contradiction
      | backgroundPid => contradiction
  | literal text =>
      cases hExpr
      have hText := CString.ofText?_eq_some_iff.mp hValue
      simp [nonemptyExpr, BoolExpr.value?, hText.2]

/-
  The C integer of a plain operand is the number that its
  string starts with.  A numeral is read when the test is
  translated, and only the least has no constant.
-/
theorem value?_intExpr :
    operand.intExpr.value? w =
      if operand.isLeast then none
      else some (.ofStrtol (operand.string w).text) := by
  rcases exists_stringExpr? hWord hPlain w with
    ⟨e, hExpr, hValue⟩
  cases operand with
  | value arg =>
      cases arg with
      | var name =>
          cases hExpr
          simp [intExpr, isLeast, IntExpr.value?, hValue]
      | status => contradiction
      | backgroundPid => contradiction
  | literal text =>
      cases hExpr
      have hText := CString.ofText?_eq_some_iff.mp hValue
      cases hNumeral : Text.toInt64? (Text.trim text) with
      | none =>
          simp [intExpr, isLeast, hNumeral, IntExpr.value?,
            hValue]
      | some n =>
          have hExpr : (literal text).intExpr = .constant n := by
            simp [intExpr, hNumeral]
          have hNumber := Text.strtol_of_toInt64? hText.1 hNumeral
          have hLong : CType.long.Holds n :=
            hNumber ▸ text.strtol_range
          rw [hExpr, IntExpr.value?, IntExpr.constantValue?_eq hLong,
            hText.2]
          simp [isLeast, hNumeral, CInt.ofStrtol, hNumber]

end Plain

end Operand

------------------------------------------------------------
-- Tests
------------------------------------------------------------

/- A test, by what it asks of the words that it looks at. -/
inductive Test where
  | nonempty (word : Text)
  | empty (word : Text)
  | path (kind : PathTest) (word : Text)
  | strings (equal : Bool) (left right : Text)
  | integers (rel : Relation) (left right : Text)
  | not (test : Test)
  deriving DecidableEq, Repr

namespace Test

/- The operators that ask what a path names. -/
def pathOps : List (Text × PathTest) :=
  [("-e", .anything), ("-f", .file), ("-d", .directory)]

/- The operators that compare strings: whether they ask for equal ones. -/
def stringOps : List (Text × Bool) :=
  [("=", true), ("==", true), ("!=", false)]

/- The operators that compare integers. -/
def integerOps : List (Text × Relation) :=
  [("-eq", .eq), ("-ne", .ne), ("-gt", .gt), ("-lt", .lt),
   ("-ge", .ge), ("-le", .le)]

/- The operators that stand between two words. -/
def comparisons : List Text :=
  stringOps.map Prod.fst ++ integerOps.map Prod.fst

/-
  The words make up a test.  An exclamation mark negates the
  words behind it, unless it is the left side of a comparison
  of three words.
-/
inductive Reads : List Text → Test → Prop where
  | word (a : Text) : Reads [a] (.nonempty a)
  | nonempty (a : Text) : Reads ["-n", a] (.nonempty a)
  | empty (a : Text) : Reads ["-z", a] (.empty a)
  | path {op : Text} {kind : PathTest}
      (hOp : (op, kind) ∈ pathOps)
      (a : Text) : Reads [op, a] (.path kind a)
  | strings {op : Text} {equal : Bool}
      (hOp : (op, equal) ∈ stringOps)
      (a b : Text) : Reads [a, op, b] (.strings equal a b)
  | integers {op : Text} {rel : Relation}
      (hOp : (op, rel) ∈ integerOps)
      (a b : Text) : Reads [a, op, b] (.integers rel a b)
  | not {rest : List Text} {test : Test}
      (hOther : ∀ op b, rest = [op, b] → op ∉ comparisons)
      (hRest : Reads rest test) : Reads ("!" :: rest) (.not test)

/- The words whose values a test looks at. -/
def operands : Test → List Text
  | .nonempty a => [a]
  | .empty a => [a]
  | .path _ a => [a]
  | .strings _ a b => [a, b]
  | .integers _ a b => [a, b]
  | .not test => test.operands

/- The word stands for a variable or a literal of ASCII characters. -/
def IsPlain
    (word : Text) : Prop :=
  ∃ operand, Operand.ofWord word = .ok operand ∧
    operand.isPlain = true

/- The string that a word stands for. -/
def string
    (w : World)
    (word : Text) : CString :=
  match Operand.ofWord word with
  | .ok operand => operand.string w
  | .error _ => .empty

/- Whether the test holds. -/
def holds
    (w : World) : Test → Bool
  | .nonempty a => !(string w a).text.isEmpty
  | .empty a => (string w a).text.isEmpty
  | .path kind a => w.finds kind (string w a)
  | .strings equal a b =>
      decide (string w a = string w b) == equal
  | .integers rel a b =>
      rel.test (string w a).text.strtol (string w b).text.strtol
  | .not test => !test.holds w

/- Whether a word is a numeral of the least integer of 64 bits. -/
def isLeast
    (word : Text) : Bool :=
  match Operand.ofWord word with
  | .ok operand => operand.isLeast
  | .error _ => false

/- Whether the test compares the least integer, given as a numeral. -/
def comparesLeast : Test → Bool
  | .integers _ a b => isLeast a || isLeast b
  | .not test => test.comparesLeast
  | _ => false

------------------------------------------------------------
-- Expressions of Tests
------------------------------------------------------------

/- The C expression of a test. -/
def expr? : Test → Except Fault BoolExpr
  | .nonempty a => (Operand.ofWord a).map Operand.nonemptyExpr
  | .empty a =>
      (Operand.ofWord a).map fun operand =>
        operand.nonemptyExpr.negate
  | .path kind a =>
      (Operand.ofWord a).map (Condition.testPath kind)
  | .strings equal a b =>
      Comparison.ofWords ⟨true, if equal then .eq else .ne⟩ a b
  | .integers rel a b => Comparison.ofWords ⟨false, rel⟩ a b
  | .not test => test.expr?.map .not

/- What the operators of tests stand for. -/
theorem ofText?_ops :
    (∀ pair ∈ stringOps, Comparison.ofText? pair.1 =
      some ⟨true, if pair.2 then .eq else .ne⟩) ∧
    ∀ pair ∈ integerOps, Comparison.ofText? pair.1 =
      some ⟨false, pair.2⟩ := by
  decide +kernel

theorem ofText?_of_mem_stringOps
    {op : Text}
    {equal : Bool}
    (h : (op, equal) ∈ stringOps) :
    Comparison.ofText? op =
      some ⟨true, if equal then .eq else .ne⟩ :=
  ofText?_ops.1 _ h

theorem ofText?_of_mem_integerOps
    {op : Text}
    {rel : Relation}
    (h : (op, rel) ∈ integerOps) :
    Comparison.ofText? op = some ⟨false, rel⟩ :=
  ofText?_ops.2 _ h

/- Only the operators of tests stand for comparisons. -/
theorem mem_comparisons_of_ofText?
    {op : Text}
    {comparison : Comparison}
    (h : Comparison.ofText? op = some comparison) :
    op ∈ comparisons := by
  rcases List.lookup_eq_some_iff.mp h with
    ⟨before, after, hTable, -⟩
  have hMem : (op, comparison) ∈ Comparison.table := by
    rw [hTable]
    exact List.mem_append_right _ List.mem_cons_self
  have hAll : ∀ pair ∈ Comparison.table,
      pair.1 ∈ comparisons := by
    simp [Comparison.table, comparisons, stringOps, integerOps]
  exact hAll _ hMem

/- An operator that compares stands in one of the two tables. -/
theorem exists_of_mem_comparisons
    {op : Text}
    (h : op ∈ comparisons) :
    (∃ equal, (op, equal) ∈ stringOps) ∨
      ∃ rel, (op, rel) ∈ integerOps := by
  rcases List.mem_append.mp h with h | h
  · rcases List.mem_map.mp h with ⟨pair, hPair, rfl⟩
    exact .inl ⟨pair.2, hPair⟩
  · rcases List.mem_map.mp h with ⟨pair, hPair, rfl⟩
    exact .inr ⟨pair.2, hPair⟩

theorem ofText?_ne_none
    {op : Text}
    (h : op ∈ comparisons) :
    Comparison.ofText? op ≠ none := by
  rcases exists_of_mem_comparisons h with ⟨_, hOp⟩ | ⟨_, hOp⟩
  · rw [ofText?_of_mem_stringOps hOp]
    exact Option.some_ne_none _
  · rw [ofText?_of_mem_integerOps hOp]
    exact Option.some_ne_none _

/- Words that compare nothing are no comparison. -/
theorem ofWords?_eq_none
    (first : Text)
    {rest : List Text}
    (h : ∀ op b, rest = [op, b] → op ∉ comparisons) :
    Comparison.ofWords? (first :: rest) = none := by
  unfold Comparison.ofWords?
  split
  · rename_i left op right hWords
    cases hWords
    cases hOp : Comparison.ofText? op with
    | none => rfl
    | some comparison =>
        exact absurd (mem_comparisons_of_ofText? hOp)
          (h op right rfl)
  · rfl

/- A test is translated into its expression. -/
theorem Reads.ofWords_eq
    {words : List Text}
    {test : Test}
    (h : Reads words test) :
    Condition.ofWords words = test.expr? := by
  induction h with
  | word a => rfl
  | nonempty a =>
      cases hOperand : Operand.ofWord a <;>
        simp [Condition.ofWords, Comparison.ofWords?,
          Text.ofString_inj, hOperand, expr?, Except.bind,
          Except.map, Condition.unary]
  | empty a =>
      cases hOperand : Operand.ofWord a <;>
        simp [Condition.ofWords, Comparison.ofWords?,
          Text.ofString_inj, hOperand, expr?, Except.bind,
          Except.map, Condition.unary]
  | path hOp a =>
      simp only [pathOps, List.mem_cons, Prod.mk.injEq,
        List.not_mem_nil, or_false] at hOp
      rcases hOp with ⟨rfl, rfl⟩ | ⟨rfl, rfl⟩ | ⟨rfl, rfl⟩ <;>
        cases hOperand : Operand.ofWord a <;>
          simp [Condition.ofWords, Comparison.ofWords?,
            Text.ofString_inj, hOperand, expr?, Except.bind,
            Except.map, Condition.unary]
  | strings hOp a b =>
      simp [Condition.ofWords, Comparison.ofWords?,
        ofText?_of_mem_stringOps hOp, expr?]
  | integers hOp a b =>
      simp [Condition.ofWords, Comparison.ofWords?,
        ofText?_of_mem_integerOps hOp, expr?]
  | not hOther hRest ih =>
      rename_i rest test
      have hNone := ofWords?_eq_none "!" hOther
      cases hRest <;>
        simp_all [Condition.ofWords, expr?]

/- An operator that is translated before one word is that of a test. -/
theorem exists_reads_of_unary
    {op word : Text}
    {operand : Operand}
    {e : BoolExpr}
    (h : Condition.unary op operand = .ok e) :
    ∃ test, Reads [op, word] test := by
  unfold Condition.unary at h
  split at h
  · rename_i hOp
    rw [hOp]
    exact ⟨_, .nonempty word⟩
  split at h
  · rename_i hOp
    rw [hOp]
    exact ⟨_, .empty word⟩
  have hPath : ∀ kind, (op, kind) ∈ pathOps →
      ∃ test, Reads [op, word] test :=
    fun kind hOp => ⟨_, .path hOp word⟩
  split at h
  · rename_i hOp
    exact hPath .anything (by simp [pathOps, hOp])
  split at h
  · rename_i hOp
    exact hPath .file (by simp [pathOps, hOp])
  split at h
  · rename_i hOp
    exact hPath .directory (by simp [pathOps, hOp])
  · contradiction

/- What is translated is a test. -/
theorem exists_reads
    {words : List Text}
    {e : BoolExpr}
    (h : Condition.ofWords words = .ok e) :
    ∃ test, Reads words test := by
  fun_induction Condition.ofWords words generalizing e with
  | case1 => contradiction
  | case2 word => exact ⟨_, .word word⟩
  | case3 first rest _ result hResult =>
      unfold Comparison.ofWords? at hResult
      split at hResult
      · rename_i left op right hWords
        rcases Option.map_eq_some_iff.mp hResult with
          ⟨comparison, hOp, -⟩
        rw [hWords]
        rcases exists_of_mem_comparisons
          (mem_comparisons_of_ofText? hOp) with
            ⟨_, hTable⟩ | ⟨_, hTable⟩
        · exact ⟨_, .strings hTable left right⟩
        · exact ⟨_, .integers hTable left right⟩
      · contradiction
  | case4 rest _ hNone ih =>
      cases hRest : Condition.ofWords rest with
      | error fault => simp [hRest, Except.map] at h
      | ok negated =>
          rcases ih hRest with ⟨test, hReads⟩
          refine ⟨.not test, .not ?_ hReads⟩
          rintro op b rfl hMem
          unfold Comparison.ofWords? at hNone
          rw [Option.map_eq_none_iff] at hNone
          exact ofText?_ne_none hMem hNone
  | case5 first hMark word _ hNone =>
      cases hOperand : Operand.ofWord word with
      | error fault => simp [hOperand, Except.bind] at h
      | ok operand =>
          have hUnary : Condition.unary first operand = .ok e := by
            simpa [hOperand, Except.bind] using h
          exact exists_reads_of_unary hUnary
  | case6 => contradiction
  | case7 => contradiction

------------------------------------------------------------
-- Values of Tests
------------------------------------------------------------

theorem string_eq
    (w : World)
    {word : Text}
    {operand : Operand}
    (h : Operand.ofWord word = .ok operand) :
    string w word = operand.string w := by
  rw [string, h]

theorem isLeast_eq
    {word : Text}
    {operand : Operand}
    (h : Operand.ofWord word = .ok operand) :
    isLeast word = operand.isLeast := by
  rw [isLeast, h]

theorem value?_negate
    (w : World)
    (e : BoolExpr) :
    e.negate.value? w = (e.value? w).map (!·) := by
  cases e <;> rfl

/- Strings are equal exactly if they compare as zero. -/
theorem test_strcmp
    (w : World)
    (equal : Bool)
    (a b : CString) :
    (if equal then Relation.eq else Relation.ne).test
        (w.strcmp a b).toInt 0 =
      (decide (a = b) == equal) := by
  have hZero : ((w.strcmp a b).toInt = 0) ↔ a = b := by
    rw [← w.strcmp_eq_zero_iff a b]
    exact ⟨fun h => Int32.toInt_inj.mp h, fun h => h ▸ rfl⟩
  rw [Relation.test_of_equal, decide_eq_decide.mpr hZero]

/- The two sides of a comparison are read one after the other. -/
theorem ofWords_of_ofWord
    {a b : Text}
    {left right : Operand}
    (comparison : Comparison)
    (ha : Operand.ofWord a = .ok left)
    (hb : Operand.ofWord b = .ok right) :
    Comparison.ofWords comparison a b =
      .ok (comparison.compare left right) := by
  rw [Comparison.ofWords, ha, hb]

/- The expression of a test is true exactly if the test holds. -/
theorem value?_of_expr?
    (w : World)
    {test : Test}
    {e : BoolExpr}
    (h : test.expr? = .ok e)
    (hPlain : ∀ word ∈ test.operands, IsPlain word) :
    e.value? w =
      if test.comparesLeast then none
      else some (test.holds w) := by
  induction test generalizing e with
  | nonempty a =>
      rcases hPlain a (by simp [operands]) with
        ⟨operand, hWord, hOperand⟩
      rw [expr?, hWord] at h
      cases h
      rw [Operand.value?_nonemptyExpr hWord hOperand w, holds,
        string_eq w hWord]
      rfl
  | empty a =>
      rcases hPlain a (by simp [operands]) with
        ⟨operand, hWord, hOperand⟩
      rw [expr?, hWord] at h
      cases h
      rw [value?_negate,
        Operand.value?_nonemptyExpr hWord hOperand w, holds,
        string_eq w hWord]
      simp [comparesLeast]
  | path kind a =>
      rcases hPlain a (by simp [operands]) with
        ⟨operand, hWord, hOperand⟩
      rcases Operand.exists_stringExpr? hWord hOperand w with
        ⟨path, hPath, hValue⟩
      rw [expr?, hWord] at h
      cases h
      simp [Condition.testPath, hPath, BoolExpr.value?, hValue,
        comparesLeast, holds, string_eq w hWord]
  | strings equal a b =>
      rcases hPlain a (by simp [operands]) with
        ⟨left, hLeft, hLeftPlain⟩
      rcases hPlain b (by simp [operands]) with
        ⟨right, hRight, hRightPlain⟩
      rcases Operand.exists_stringExpr? hLeft hLeftPlain w with
        ⟨x, hx, hxValue⟩
      rcases Operand.exists_stringExpr? hRight hRightPlain w with
        ⟨y, hy, hyValue⟩
      rw [expr?, ofWords_of_ofWord _ hLeft hRight] at h
      cases h
      simp [Comparison.compare, hx, hy, BoolExpr.value?, hxValue,
        hyValue, comparesLeast, holds, string_eq w hLeft,
        string_eq w hRight, test_strcmp]
  | integers rel a b =>
      rcases hPlain a (by simp [operands]) with
        ⟨left, hLeft, hLeftPlain⟩
      rcases hPlain b (by simp [operands]) with
        ⟨right, hRight, hRightPlain⟩
      have hx := Operand.value?_intExpr hLeft hLeftPlain w
      have hy := Operand.value?_intExpr hRight hRightPlain w
      rw [expr?, ofWords_of_ofWord _ hLeft hRight] at h
      cases h
      rw [comparesLeast, isLeast_eq hLeft, isLeast_eq hRight]
      simp only [Comparison.compare, BoolExpr.value?, hx, hy]
      by_cases hLeastLeft : left.isLeast = true
      · simp [hLeastLeft]
      · by_cases hLeastRight : right.isLeast = true
        · simp [hLeastLeft, hLeastRight]
        · simp [hLeastLeft, hLeastRight, holds,
            string_eq w hLeft, string_eq w hRight,
            CInt.compare?_of_type_eq, CInt.ofStrtol,
            CInt.value_ofBool]
  | not test ih =>
      cases hRest : test.expr? with
      | error fault => simp [expr?, hRest, Except.map] at h
      | ok inner =>
          rw [expr?, hRest] at h
          cases h
          rw [BoolExpr.value?, ih hRest hPlain, comparesLeast,
            holds]
          split <;> rfl

end Test

------------------------------------------------------------
-- Texts of Tests
------------------------------------------------------------

namespace Condition

/-
  A text that is translated is a test.  In every world, the C
  text that it becomes denotes an integer that is not zero
  exactly if the test holds, unless the test compares the
  least integer of 64 bits, given as a numeral: then the C
  text denotes nothing.
-/
theorem render_agrees_iff
    (w : World)
    (expr : Text)
    (e : BoolExpr)
    (hOk : ofText expr = .ok e) :
    (∃ test, Test.Reads (Word.split expr) test) ∧
    ∀ test, Test.Reads (Word.split expr) test →
      (∀ word ∈ test.operands, Test.IsPlain word) →
      ((∃ n, w.intValue? e.render = some n ∧
          (n.value ≠ 0 ↔ test.holds w = true)) ↔
        test.comparesLeast = false) := by
  refine ⟨Test.exists_reads hOk, ?_⟩
  intro test hReads hPlain
  have hExpr : test.expr? = .ok e := by
    rw [← hReads.ofWords_eq]
    exact hOk
  have hTruth : w.truth? e.render =
      if test.comparesLeast then none
      else some (test.holds w) := by
    rw [e.truth?_render]
    exact Test.value?_of_expr? w hExpr hPlain
  unfold World.truth? at hTruth
  cases hLeast : test.comparesLeast with
  | true =>
      have hNone : w.intValue? e.render = none := by
        simpa [hLeast] using hTruth
      simp [hNone]
  | false =>
      rw [hLeast, if_neg (by decide),
        Option.map_eq_some_iff] at hTruth
      rcases hTruth with ⟨n, hn, hValue⟩
      refine iff_of_true ⟨n, hn, ?_⟩ rfl
      rw [← hValue]
      simp

/- A negated comparison of a quoted numeral and a variable. -/
theorem render_agrees_iff_of_negated :
    let w := World.ofEnv fun _ => CString.ofText? "-12x"
    let expr : Text := "! ' -7 ' -gt $n"
    let test := Test.not (.integers .gt "' -7 '" "$n")
    let e := BoolExpr.not (.compareInts .gt (.constant (-7))
      (.ofString (.variable "n")))
    ofText expr = .ok e ∧
    Test.Reads (Word.split expr) test ∧
    (∀ word ∈ test.operands, Test.IsPlain word) ∧
    test.comparesLeast = false ∧
    ∃ n, w.intValue? e.render = some n ∧
      (n.value ≠ 0 ↔ test.holds w = true) := by
  intro w expr test e
  have hOk : ofText expr = .ok e :=
    eq_ok_of_toOption (by decide +kernel)
  have hWords : Word.split expr =
      [Text.ofString "!", Text.ofString "' -7 '",
       Text.ofString "-gt", Text.ofString "$n"] := by
    decide +kernel
  have hReads : Test.Reads (Word.split expr) test := by
    rw [hWords]
    refine .not ?_ (.integers (by decide +kernel) _ _)
    rintro op b ⟨⟩
  have hPlain : ∀ word ∈ test.operands, Test.IsPlain word := by
    intro word hWord
    simp only [test, Test.operands, List.mem_cons,
      List.not_mem_nil, or_false] at hWord
    rcases hWord with rfl | rfl
    · exact ⟨.literal " -7 ",
        eq_ok_of_toOption (by decide +kernel),
        by decide +kernel⟩
    · exact ⟨.value (.var "n"),
        eq_ok_of_toOption (by decide +kernel), rfl⟩
  have hLeast : test.comparesLeast = false := by
    decide +kernel
  exact ⟨hOk, hReads, hPlain, hLeast,
    ((render_agrees_iff w expr e hOk).2 test hReads
      hPlain).mpr hLeast⟩

/-
  Zero is greater than the least integer of 64 bits, but the
  C text of the test denotes nothing.
-/
theorem render_of_least :
    let w := World.ofEnv fun _ => none
    let expr : Text := "0 -gt -9223372036854775808"
    let test := Test.integers .gt "0" "-9223372036854775808"
    let text : Text := "(0L > -9223372036854775808L)"
    (ofText expr).map BoolExpr.render = .ok text ∧
    Test.Reads (Word.split expr) test ∧
    test.holds w = true ∧
    w.intValue? text = none := by
  intro w expr test text
  have hWords : Word.split expr =
      [Text.ofString "0", Text.ofString "-gt",
       Text.ofString "-9223372036854775808"] := by
    decide +kernel
  refine ⟨?_, ?_, ?_, ?_⟩
  · exact eq_ok_of_toOption (by decide +kernel)
  · rw [hWords]
    exact .integers (by decide +kernel) _ _
  · decide +kernel
  · decide +kernel

end Condition

end ShellToC
