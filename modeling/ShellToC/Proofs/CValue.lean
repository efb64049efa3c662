import ShellToC.Proofs.CExpr
import ShellToC.Proofs.Decoding
import ShellToC.Proofs.Numeral

/-
  This file gives C expressions their values, by the rules of
  C where `int` has 32 bits and `long` has 64.

  Integers have one of four types, and an operator works in
  the greater type of its operands.  An operation of a signed
  type whose result the type cannot hold has no value, and an
  unsigned one goes round.  A constant has the first type of
  its list that holds it.

  What the expressions ask of the system is the environment,
  the file system and the comparison of strings.  They are
  left open, but for the law that only equal strings compare
  as zero.

  Key definitions include:
    * `CType`
    * `CInt`
    * `CInt.ofConstant?`
    * `CString`
    * `World`
    * `World.eval`
    * `World.intValue?`
-/

namespace ShellToC

------------------------------------------------------------
-- Types
------------------------------------------------------------

/- The types of integers, from the least to the greatest. -/
inductive CType where
  | int
  | uint
  | long
  | ulong
  deriving DecidableEq, Repr

namespace CType

/- The place of a type among the types. -/
def rank : CType → Nat
  | .int => 0
  | .uint => 1
  | .long => 2
  | .ulong => 3

/- The type in which an operator works on two operands. -/
def common
    (a b : CType) : CType :=
  if a.rank ≤ b.rank then b else a

def isSigned : CType → Bool
  | .int => true
  | .uint => false
  | .long => true
  | .ulong => false

def bits : CType → Nat
  | .int => 32
  | .uint => 32
  | .long => 64
  | .ulong => 64

/- The least value of a type. -/
def least : CType → Int
  | .int => -2147483648
  | .uint => 0
  | .long => -9223372036854775808
  | .ulong => 0

/- The greatest value of a type. -/
def greatest : CType → Int
  | .int => 2147483647
  | .uint => 4294967295
  | .long => 9223372036854775807
  | .ulong => 18446744073709551615

/- The type can hold the value. -/
def Holds
    (t : CType)
    (v : Int) : Prop :=
  t.least ≤ v ∧ v ≤ t.greatest

instance
    (t : CType)
    (v : Int) : Decidable (t.Holds v) :=
  inferInstanceAs (Decidable (_ ∧ _))

end CType

------------------------------------------------------------
-- Integers
------------------------------------------------------------

/- An integer of a type that holds it. -/
structure CInt where
  type : CType
  value : Int
  holds : type.Holds value
  deriving DecidableEq

namespace CInt

/- The integer of the given type and value, if there is one. -/
def ofInt?
    (t : CType)
    (v : Int) : Option CInt :=
  if h : t.Holds v then some ⟨t, v, h⟩ else none

/-
  The value as one of the type.  Unsigned types go round, and
  signed ones have to hold it.
-/
def bring?
    (t : CType)
    (v : Int) : Option CInt :=
  ofInt? t (if t.isSigned then v else v % (t.greatest + 1))

theorem ofInt?_of_holds
    {t : CType}
    {v : Int}
    (h : t.Holds v) :
    ofInt? t v = some ⟨t, v, h⟩ := by
  rw [ofInt?, dif_pos h]

/- A value that the type holds is kept. -/
theorem bring?_of_holds
    {t : CType}
    {v : Int}
    (h : t.Holds v) :
    bring? t v = some ⟨t, v, h⟩ := by
  have hSame : (if t.isSigned then v else
      v % (t.greatest + 1)) = v := by
    by_cases hSigned : t.isSigned = true
    · rw [if_pos hSigned]
    · have hLeast : t.least = 0 := by
        cases t <;> first | rfl | contradiction
      rw [if_neg hSigned]
      apply Int.emod_eq_of_lt
      · exact hLeast ▸ h.1
      · exact Int.lt_add_one_of_le h.2
  rw [bring?, hSame]
  exact ofInt?_of_holds h

theorem ofInt?_eq_none
    {t : CType}
    {v : Int}
    (h : ¬ t.Holds v) :
    ofInt? t v = none := by
  rw [ofInt?, dif_neg h]

/- A signed type takes a value as it is. -/
theorem bring?_of_isSigned
    {t : CType}
    (h : t.isSigned = true)
    (v : Int) :
    bring? t v = ofInt? t v := by
  rw [bring?, if_pos h]

/- One for what is true, and zero for what is not. -/
def ofBool : Bool → CInt
  | true => ⟨.int, 1, by decide⟩
  | false => ⟨.int, 0, by decide⟩

theorem value_ofBool
    (b : Bool) :
    ((ofBool b).value != 0) = b := by
  cases b <;> rfl

theorem value_ofBool_ne_zero
    (b : Bool) :
    (ofBool b).value ≠ 0 ↔ b = true := by
  cases b <;> decide

end CInt

------------------------------------------------------------
-- Constants
------------------------------------------------------------

namespace CInt

/- The types that a constant may have, in the order in which they are tried. -/
def constantTypes
    (isLong isDecimal : Bool) : List CType :=
  match isLong, isDecimal with
  | false, true => [.int, .long]
  | false, false => [.int, .uint, .long, .ulong]
  | true, true => [.long]
  | true, false => [.long, .ulong]

/- The value of a constant with or without the suffix `L`. -/
def ofConstant?
    (text : Text) : Option CInt :=
  let isLong := text.getLast? == some 'L'
  let numeral := if isLong then text.dropLast else text
  (Numeral.value? numeral).bind fun n =>
    (constantTypes isLong
      ((Numeral.split numeral).1 == 10)).findSome? fun t =>
        ofInt? t n

end CInt

------------------------------------------------------------
-- Operators
------------------------------------------------------------

/- Whether the relation holds between two integers. -/
def Relation.test : Relation → Int → Int → Bool
  | .eq, a, b => a == b
  | .ne, a, b => a != b
  | .gt, a, b => b < a
  | .lt, a, b => a < b
  | .ge, a, b => b ≤ a
  | .le, a, b => a ≤ b

theorem Relation.test_of_equal
    (equal : Bool)
    (a b : Int) :
    (if equal then Relation.eq else Relation.ne).test a b =
      (decide (a = b) == equal) := by
  cases equal <;> simp [test, Bool.beq_eq_decide_eq, bne]

namespace CType

/- The bits in which two values of a type differ, as a value of the type. -/
def xor
    (t : CType)
    (a b : Int) : Int :=
  let word := BitVec.ofInt t.bits a ^^^ BitVec.ofInt t.bits b
  if t.isSigned then word.toInt else word.toNat

/-
  The exact result of an operation on two values of a type.
  A remainder needs a quotient that the type holds.
-/
def compute?
    (t : CType) : Operator → Int → Int → Option Int
  | .plus, a, b => some (a + b)
  | .minus, a, b => some (a - b)
  | .times, a, b => some (a * b)
  | .slash, a, b => if b = 0 then none else some (a.tdiv b)
  | .percent, a, b =>
      if b = 0 ∨ ¬ t.Holds (a.tdiv b) then none
      else some (a.tmod b)
  | .caret, a, b => some (t.xor a b)

end CType

namespace CInt

/- Calculate in the common type of the operands. -/
def arith?
    (op : Operator)
    (a b : CInt) : Option CInt :=
  let t := a.type.common b.type
  (bring? t a.value).bind fun x =>
    (bring? t b.value).bind fun y =>
      (t.compute? op x.value y.value).bind (bring? t)

/- Compare in the common type of the operands. -/
def compare?
    (rel : Relation)
    (a b : CInt) : Option CInt :=
  let t := a.type.common b.type
  (bring? t a.value).bind fun x =>
    (bring? t b.value).map fun y =>
      ofBool (rel.test x.value y.value)

/- Apply an operator. -/
def binary? : CBinary → CInt → CInt → Option CInt
  | .arith op, a, b => arith? op a b
  | .compare rel, a, b => compare? rel a b

/- Apply a sign. -/
def unary? : CUnary → CInt → Option CInt
  | .not, a => some (ofBool (a.value == 0))
  | .minus, a => bring? a.type (-a.value)
  | .plus, a => some a

/- Integers are compared by their values if their type holds them. -/
theorem compare?_of_holds
    (rel : Relation)
    {a b : CInt}
    (ha : (a.type.common b.type).Holds a.value)
    (hb : (a.type.common b.type).Holds b.value) :
    compare? rel a b =
      some (ofBool (rel.test a.value b.value)) := by
  simp [compare?, bring?_of_holds ha, bring?_of_holds hb]

theorem compare?_of_type_eq
    (rel : Relation)
    {a b : CInt}
    (h : a.type = b.type) :
    compare? rel a b =
      some (ofBool (rel.test a.value b.value)) := by
  have hCommon : a.type.common b.type = a.type := by
    rw [h, CType.common, if_pos (Nat.le_refl _)]
  have hb : a.type.Holds b.value := h ▸ b.holds
  apply compare?_of_holds
  · rw [hCommon]
    exact a.holds
  · rw [hCommon]
    exact hb

end CInt

------------------------------------------------------------
-- Strings
------------------------------------------------------------

/-
  A string of C: bytes other than zero, each as the character
  of its code.
-/
structure CString where
  text : Text
  areBytes : ∀ c ∈ text, 0 < c.toNat ∧ c.toNat < 256
  deriving DecidableEq

namespace CString

def empty : CString :=
  ⟨[], by simp⟩

/- A text of ASCII characters is the string of their codes. -/
def ofText?
    (text : Text) : Option CString :=
  if h : text.isPlain = true then
    some ⟨text, by
      intro c hc
      have hPlain := List.all_eq_true.mp h c hc
      simp only [Bool.and_eq_true, decide_eq_true_eq] at hPlain
      omega⟩
  else
    none

theorem ofText?_eq_some_iff
    {text : Text}
    {s : CString} :
    ofText? text = some s ↔
      text.isPlain = true ∧ s.text = text := by
  unfold ofText?
  split
  · rename_i hPlain
    rw [Option.some.injEq]
    constructor
    · rintro rfl
      exact ⟨hPlain, rfl⟩
    · rintro ⟨-, rfl⟩
      rfl
  · rename_i hPlain
    simp [hPlain]

/-
  The byte at a position, as a signed `char` gives it.  Behind
  the last byte there is zero.
-/
def byteAt
    (s : CString)
    (position : Nat) : Int :=
  match s.text[position]? with
  | some c =>
      if c.toNat < 128 then c.toNat else (c.toNat : Int) - 256
  | none => 0

theorem holds_byteAt
    (s : CString)
    (position : Nat) :
    CType.int.Holds (s.byteAt position) := by
  unfold byteAt CType.Holds
  simp only [CType.least, CType.greatest]
  split
  · rename_i c hc
    have hByte := s.areBytes c (List.mem_of_getElem? hc)
    split <;> omega
  · decide

end CString

/- The number that a text starts with is one of `long`. -/
def CInt.ofStrtol
    (text : Text) : CInt :=
  ⟨.long, text.strtol, text.strtol_range⟩

------------------------------------------------------------
-- Values
------------------------------------------------------------

/- The value of an expression. -/
inductive CValue where
  | int (n : CInt)
  | string (s : CString)
  deriving DecidableEq

namespace CValue

def int? : CValue → Option CInt
  | .int n => some n
  | .string _ => none

def string? : CValue → Option CString
  | .int _ => none
  | .string s => some s

/- The value of a literal of ASCII characters. -/
def ofLiteral?
    (quote : Char)
    (inside : Text) : Option CValue :=
  (Literal.decode? inside).bind fun text =>
    if quote = '\x22' then
      (CString.ofText? text).map .string
    else
      match text with
      | [c] =>
          if c.toNat < 128 then
            (CInt.ofInt? .int c.toNat).map .int
          else
            none
      | _ => none

end CValue

/- What a program finds when it evaluates an expression. -/
structure World where
  env : Text → Option CString
  status : Int32
  job : Int32
  /- What the file system says about a path. -/
  finds : PathTest → CString → Bool
  strcmp : CString → CString → Int32
  strcmp_eq_zero_iff : ∀ a b, strcmp a b = 0 ↔ a = b

namespace World

/-
  A world with the given environment and no files, where
  strings that are not equal compare as one.
-/
def ofEnv
    (env : Text → Option CString) : World where
  env := env
  status := 0
  job := 0
  finds := fun _ _ => false
  strcmp := fun a b => if a = b then 0 else 1
  strcmp_eq_zero_iff := by
    intro a b
    split
    · simp [*]
    · rename_i hOther
      exact iff_of_false (by decide) hOther

/- The value of a variable of the script, empty if it is not set. -/
def var
    (w : World)
    (name : Text) : CString :=
  (w.env name).getD .empty

/- A word of 32 bits as an integer of C. -/
def intOf
    (n : Int32) : CInt :=
  ⟨.int, n.toInt, by
    have hLeast := Int32.le_toInt n
    have hGreatest := Int32.toInt_lt n
    simp only [CType.Holds, CType.least, CType.greatest]
    omega⟩

/- The value of a variable of the program. -/
def word?
    (w : World)
    (name : Text) : Option CValue :=
  if name = statusVariable then
    some (.int (intOf w.status))
  else if name = jobVariable then
    some (.int (intOf w.job))
  else
    none

/-
  What a helper returns: the value of a variable of the
  script, the number that a text starts with, or whether a
  path names something of a kind.
-/
def help?
    (w : World) : Helper → CString → Option CValue
  | .var, s => some (.string (w.var s.text))
  | .int, s => some (.int (.ofStrtol s.text))
  | .pathExists, s => some (.int (.ofBool (w.finds .anything s)))
  | .isFile, s => some (.int (.ofBool (w.finds .file s)))
  | .isDir, s => some (.int (.ofBool (w.finds .directory s)))
  | _, _ => none

------------------------------------------------------------
-- Evaluation
------------------------------------------------------------

/- The value of an expression, if it has one. -/
def eval
    (w : World) : CExpr → Option CValue
  | .word name => w.word? name
  | .number text => (CInt.ofConstant? text).map .int
  | .literal quote inside => CValue.ofLiteral? quote inside
  | .unary op e =>
      ((eval w e).bind CValue.int?).bind fun n =>
        (CInt.unary? op n).map .int
  | .binary op left right =>
      ((eval w left).bind CValue.int?).bind fun a =>
        ((eval w right).bind CValue.int?).bind fun b =>
          (CInt.binary? op a b).map .int
  | .index array position =>
      ((eval w array).bind CValue.string?).bind fun s =>
        ((eval w position).bind CValue.int?).bind fun n =>
          if 0 ≤ n.value ∧ n.value ≤ s.text.length then
            some (.int ⟨.int, s.byteAt n.value.toNat,
              s.holds_byteAt _⟩)
          else
            none
  | .call function arg =>
      (Helper.ofName? function).bind fun helper =>
        ((eval w arg).bind CValue.string?).bind (w.help? helper)
  | .callTwo function first second =>
      if function = "strcmp" then
        ((eval w first).bind CValue.string?).bind fun a =>
          ((eval w second).bind CValue.string?).map fun b =>
            .int (intOf (w.strcmp a b))
      else
        none

/- The integer that an expression denotes. -/
def int?
    (w : World)
    (e : CExpr) : Option CInt :=
  (w.eval e).bind CValue.int?

/- The string that an expression denotes. -/
def string?
    (w : World)
    (e : CExpr) : Option CString :=
  (w.eval e).bind CValue.string?

/- The integer that a text denotes as an expression of C. -/
def intValue?
    (w : World)
    (text : Text) : Option CInt :=
  (CExpr.ofText? text).bind w.int?

theorem int?_number
    (w : World)
    (text : Text) :
    w.int? (.number text) = CInt.ofConstant? text := by
  rw [int?, eval]
  cases CInt.ofConstant? text <;> rfl

theorem int?_unary
    (w : World)
    (op : CUnary)
    (e : CExpr) :
    w.int? (.unary op e) = (w.int? e).bind (CInt.unary? op) := by
  rw [int?, eval, ← int?]
  cases w.int? e with
  | none => rfl
  | some n =>
      rw [Option.bind_some, Option.bind_some]
      cases CInt.unary? op n <;> rfl

theorem int?_binary
    (w : World)
    (op : CBinary)
    (left right : CExpr) :
    w.int? (.binary op left right) =
      (w.int? left).bind fun a =>
        (w.int? right).bind fun b => CInt.binary? op a b := by
  rw [int?, eval, ← int?, ← int?]
  cases w.int? left with
  | none => rfl
  | some a =>
      cases w.int? right with
      | none => rfl
      | some b =>
          simp only [Option.bind_some]
          cases CInt.binary? op a b <;> rfl

theorem int?_index
    (w : World)
    (array position : CExpr) :
    w.int? (.index array position) =
      (w.string? array).bind fun s =>
        (w.int? position).bind fun n =>
          if 0 ≤ n.value ∧ n.value ≤ s.text.length then
            some ⟨.int, s.byteAt n.value.toNat,
              s.holds_byteAt _⟩
          else
            none := by
  rw [int?, eval, ← string?, ← int?]
  cases w.string? array with
  | none => rfl
  | some s =>
      cases w.int? position with
      | none => rfl
      | some n =>
          simp only [Option.bind_some]
          split <;> rfl

/- A helper is called with the string that its argument denotes. -/
theorem eval_call
    (w : World)
    (helper : Helper)
    (arg : CExpr)
    (hName : Helper.ofName? helper.name = some helper) :
    w.eval (.call helper.name arg) =
      (w.string? arg).bind (w.help? helper) := by
  rw [eval, hName]
  rfl

theorem int?_strcmp
    (w : World)
    (first second : CExpr) :
    w.int? (.callTwo "strcmp" first second) =
      (w.string? first).bind fun a =>
        (w.string? second).map fun b =>
          intOf (w.strcmp a b) := by
  rw [int?, eval, if_pos rfl, ← string?, ← string?]
  cases w.string? first with
  | none => rfl
  | some a => cases w.string? second <;> rfl

end World

end ShellToC
