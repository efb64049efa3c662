import ShellToC.Proofs.ArithGrammar

/-
  This file compares the value of an arithmetic expression,
  calculated in 64 bits, with the value of the C text that it
  becomes.

  C calculates in the type of the operands: numerals that fit
  and the status have 32 bits, and variables have 64.  So an
  operation between numerals may have a result that its type
  cannot hold, although 64 bits can.  Variables are read in
  base ten by C, and in the base of their numeral otherwise.
  If every variable is read alike and every operation has a
  type that holds its result, the two values are equal.

  Key definitions include:
    * `ArithTree.value?`
    * `ArithTree.type`
    * `ArithTree.fits`

  Main declarations:
    * `Text.strtol_of_arithValue?`
    * `CType.xor_eq`
    * `ArithTree.int?_toC_of_fits`
    * `ArithTree.int?_toC_eq_none`
    * `ArithExpr.render_agrees_of_fits`
-/

namespace ShellToC

------------------------------------------------------------
-- Calculation in 64 Bits
------------------------------------------------------------

/- The value, if 64 bits hold it. -/
def long?
    (v : Int) : Option Int :=
  if CType.long.Holds v then some v else none

theorem long?_eq_some_iff
    {v u : Int} :
    long? v = some u ↔ CType.long.Holds u ∧ v = u := by
  unfold long?
  split
  · rename_i hHolds
    rw [Option.some.injEq]
    constructor
    · rintro rfl
      exact ⟨hHolds, rfl⟩
    · rintro ⟨-, rfl⟩
      rfl
  · rename_i hHolds
    constructor
    · intro h
      contradiction
    · rintro ⟨hu, rfl⟩
      exact absurd hu hHolds

namespace Operator

/- The exact result of an operation on values of 64 bits. -/
def outcome? : Operator → Int → Int → Option Int
  | .plus, a, b => some (a + b)
  | .minus, a, b => some (a - b)
  | .times, a, b => some (a * b)
  | .slash, a, b => if b = 0 then none else some (a.tdiv b)
  | .percent, a, b => if b = 0 then none else some (a.tmod b)
  | .caret, a, b =>
      some (BitVec.ofInt 64 a ^^^ BitVec.ofInt 64 b).toInt

/- The result of an operation, if 64 bits hold it. -/
def result?
    (op : Operator)
    (a b : Int) : Option Int :=
  (op.outcome? a b).bind long?

end Operator

namespace Numeral

/- The value of a numeral behind at most one sign. -/
def signed? : Text → Option Int
  | '-' :: numeral => (value? numeral).map (-Int.ofNat ·)
  | '+' :: numeral => (value? numeral).map Int.ofNat
  | numeral => (value? numeral).map Int.ofNat

/- The numeral without its sign. -/
def unsigned : Text → Text
  | '-' :: numeral => numeral
  | '+' :: numeral => numeral
  | numeral => numeral

end Numeral

namespace Text

/- The text between the white space at its ends. -/
def inner
    (text : Text) : Text :=
  let front := text.dropWhile CToken.isSpace
  (front.reverse.dropWhile CToken.isSpace).reverse

/- Whether the text is empty or a decimal numeral. -/
def isDecimal
    (text : Text) : Bool :=
  Numeral.isDecimal (Numeral.unsigned text.inner)

/-
  What the text of a variable counts: zero if it is empty,
  and else a numeral of any base, between blanks.
-/
def arithValue?
    (text : Text) : Option Int :=
  if text.inner = [] then some 0
  else (Numeral.signed? text.inner).bind long?

end Text

namespace ArithTree

/-
  The value of an expression in a world.  There is none if a
  numeral is not valid, a divisor is zero, or 64 bits do not
  hold a result.
-/
def value?
    (w : World) : ArithTree → Option Int
  | .number numeral =>
      (Numeral.value? numeral).bind fun n => long? n
  | .var name => (w.var name).text.arithValue?
  | .status => some w.status.toInt
  | .backgroundPid => some w.job.toInt
  | .minus e => (e.value? w).bind fun v => long? (-v)
  | .plus e => e.value? w
  | .binary op left right =>
      (left.value? w).bind fun a =>
        (right.value? w).bind fun b => op.result? a b

end ArithTree

namespace Text

/- What is left out behind the text is white space. -/
theorem exists_inner_append
    (text : Text) :
    ∃ tail, tail.all CToken.isSpace = true ∧
      text.dropWhile CToken.isSpace = text.inner ++ tail := by
  refine ⟨((text.dropWhile CToken.isSpace).reverse.takeWhile
    CToken.isSpace).reverse, ?_, ?_⟩
  · rw [List.all_reverse]
    exact List.all_takeWhile
  · rw [inner, ← List.reverse_append,
      List.takeWhile_append_dropWhile, List.reverse_reverse]

/- White space starts with no digit. -/
theorem head?_any_isDigit_of_space
    {text : Text}
    (h : text.all CToken.isSpace = true) :
    text.head?.any Char.isDigit = false := by
  apply head?_any_isDigit_of_blank
  rw [List.all_eq_true] at h ⊢
  exact fun c hc => isBlank_of_isSpace (h c hc)

theorem strtol_of_inner_eq_nil
    {text : Text}
    (h : text.inner = []) :
    text.strtol = 0 := by
  rcases text.exists_inner_append with ⟨tail, hTail, hFront⟩
  rw [h, List.nil_append] at hFront
  -- What is left of the text starts with no white space.
  have hNone : tail = [] := by
    have hHead := List.head?_dropWhile_not CToken.isSpace text
    rw [hFront] at hHead
    cases tail with
    | nil => rfl
    | cons c tail => simp_all
  rw [strtol, hFront, hNone]
  decide

/-
  A decimal numeral counts the number that the text starts
  with.
-/
theorem strtol_of_arithValue?
    {text : Text}
    {v : Int}
    (hDecimal : text.isDecimal = true)
    (h : text.arithValue? = some v) :
    text.strtol = v := by
  unfold isDecimal at hDecimal
  unfold arithValue? at h
  split at h
  · rename_i hNone
    cases h
    exact strtol_of_inner_eq_nil hNone
  rcases Option.bind_eq_some_iff.mp h with ⟨u, hu, hLong⟩
  rcases long?_eq_some_iff.mp hLong with ⟨hRange, rfl⟩
  have hClamp := clampLong_of_range hRange.1 hRange.2
  rcases text.exists_inner_append with ⟨tail, hTail, hFront⟩
  have hEnd := head?_any_isDigit_of_space hTail
  generalize text.inner = numeral at hu hDecimal hFront
  unfold Numeral.signed? at hu
  split at hu
  · rcases Option.map_eq_some_iff.mp hu with ⟨n, hn, rfl⟩
    rw [Numeral.unsigned] at hDecimal
    rcases Numeral.value?_of_isDecimal hDecimal hn with
      ⟨-, hDigits, rfl⟩
    rw [strtol, hFront]
    simp only [List.cons_append]
    rw [leadingNat_append hDigits hEnd]
    exact hClamp
  · rcases Option.map_eq_some_iff.mp hu with ⟨n, hn, rfl⟩
    rw [Numeral.unsigned] at hDecimal
    rcases Numeral.value?_of_isDecimal hDecimal hn with
      ⟨-, hDigits, rfl⟩
    rw [strtol, hFront]
    simp only [List.cons_append]
    rw [leadingNat_append hDigits hEnd]
    exact hClamp
  · rename_i hMinus hPlus
    rcases Option.map_eq_some_iff.mp hu with ⟨n, hn, rfl⟩
    have hSame : Numeral.unsigned numeral = numeral := by
      unfold Numeral.unsigned
      split <;> simp_all
    rw [hSame] at hDecimal
    rcases Numeral.value?_of_isDecimal hDecimal hn with
      ⟨hNonempty, hDigits, rfl⟩
    rw [strtol_of_digits hFront hNonempty hDigits hEnd]
    exact hClamp

theorem holds_of_arithValue?
    {text : Text}
    {v : Int}
    (h : text.arithValue? = some v) :
    CType.long.Holds v := by
  simp only [arithValue?] at h
  split at h
  · cases h
    decide
  · rcases Option.bind_eq_some_iff.mp h with ⟨u, -, hu⟩
    exact (long?_eq_some_iff.mp hu).1

end Text

/- A word of 32 bits is a value of 64 bits. -/
theorem CType.holds_long_toInt
    (n : Int32) :
    long.Holds n.toInt := by
  have hLeast := Int32.le_toInt n
  have hGreatest := Int32.toInt_lt n
  simp only [Holds, least, greatest]
  omega

namespace ArithTree

/- An operation has a value if its operands have values. -/
theorem value?_binary_eq_some_iff
    {w : World}
    {op : Operator}
    {left right : ArithTree}
    {v : Int} :
    (binary op left right).value? w = some v ↔
      ∃ a b, left.value? w = some a ∧
        right.value? w = some b ∧ op.result? a b = some v := by
  simp only [value?, Option.bind_eq_some_iff]
  constructor
  · rintro ⟨a, ha, b, hb, hv⟩
    exact ⟨a, b, ha, hb, hv⟩
  · rintro ⟨a, b, ha, hb, hv⟩
    exact ⟨a, ha, b, hb, hv⟩

/- Values are values of 64 bits. -/
theorem holds_of_value?
    {w : World}
    {e : ArithTree}
    {v : Int}
    (h : e.value? w = some v) :
    CType.long.Holds v := by
  induction e with
  | number numeral =>
      rcases Option.bind_eq_some_iff.mp h with ⟨n, -, hn⟩
      exact (long?_eq_some_iff.mp hn).1
  | var name => exact Text.holds_of_arithValue? h
  | status =>
      cases h
      exact CType.holds_long_toInt _
  | backgroundPid =>
      cases h
      exact CType.holds_long_toInt _
  | minus e _ =>
      rcases Option.bind_eq_some_iff.mp h with ⟨u, -, hu⟩
      exact (long?_eq_some_iff.mp hu).1
  | plus e ih => exact ih h
  | binary op left right _ _ =>
      rcases value?_binary_eq_some_iff.mp h with ⟨a, b, -, -, hv⟩
      rcases Option.bind_eq_some_iff.mp hv with ⟨u, -, hu⟩
      exact (long?_eq_some_iff.mp hu).1

end ArithTree

------------------------------------------------------------
-- Exclusive Or
------------------------------------------------------------

namespace CType

theorem holds_iff
    {t : CType}
    {v : Int} :
    t.Holds v ↔ t.least ≤ v ∧ v ≤ t.greatest :=
  Iff.rfl

/- A value of an unsigned type is the number of its bits. -/
theorem toNat_ofInt_of_holds
    {t : CType}
    {v : Int}
    (hSigned : t.isSigned = false)
    (h : t.Holds v) :
    (BitVec.ofInt t.bits v).toNat = v.toNat := by
  cases t with
  | int => contradiction
  | uint =>
      simp only [holds_iff, least, greatest] at h
      rw [bits, BitVec.toNat_ofInt,
        Int.emod_eq_of_lt h.1 (by omega)]
  | long => contradiction
  | ulong =>
      simp only [holds_iff, least, greatest] at h
      rw [bits, BitVec.toNat_ofInt,
        Int.emod_eq_of_lt h.1 (by omega)]

/- Values of an unsigned type differ in the bits of their numbers. -/
theorem xor_of_unsigned
    {t : CType}
    {a b : Int}
    (hSigned : t.isSigned = false)
    (ha : t.Holds a)
    (hb : t.Holds b) :
    t.xor a b = (a.toNat ^^^ b.toNat : Nat) := by
  simp only [xor, hSigned, Bool.false_eq_true, if_false,
    BitVec.toNat_xor]
  rw [toNat_ofInt_of_holds hSigned ha,
    toNat_ofInt_of_holds hSigned hb]

/- So do signed values that are not negative. -/
theorem toInt_xor_ofInt
    {a b : Int}
    (ha : 0 ≤ a ∧ a ≤ long.greatest)
    (hb : 0 ≤ b ∧ b ≤ long.greatest) :
    (BitVec.ofInt 64 a ^^^ BitVec.ofInt 64 b).toInt =
      (a.toNat ^^^ b.toNat : Nat) := by
  simp only [greatest] at ha hb
  have hUnsigned {v : Int} (hv : 0 ≤ v ∧
      v ≤ 9223372036854775807) : ulong.Holds v := by
    simp only [holds_iff, least, greatest]
    omega
  have hNat : (BitVec.ofInt 64 a ^^^ BitVec.ofInt 64 b).toNat =
      a.toNat ^^^ b.toNat := by
    rw [BitVec.toNat_xor]
    exact congr (congrArg HXor.hXor
      (toNat_ofInt_of_holds rfl (hUnsigned ha)))
      (toNat_ofInt_of_holds rfl (hUnsigned hb))
  have hSmall := Nat.xor_lt_two_pow (x := a.toNat)
    (y := b.toNat) (n := 63) (by omega) (by omega)
  rw [BitVec.toInt_eq_toNat_of_lt (by omega), hNat]

/- A value of 32 bits is extended with its sign. -/
theorem ofInt_eq_signExtend
    {a : Int}
    (h : int.Holds a) :
    BitVec.ofInt 64 a = (BitVec.ofInt 32 a).signExtend 64 := by
  simp only [Holds, least, greatest] at h
  apply BitVec.eq_of_toInt_eq
  rw [BitVec.toInt_signExtend_of_le (by decide),
    BitVec.toInt_ofInt_eq_self (by decide) (by omega) (by omega),
    BitVec.toInt_ofInt_eq_self (by decide) (by omega) (by omega)]

/-
  Two values differ in the same way in every type that holds
  both of them.
-/
theorem xor_eq
    {t : CType}
    {a b : Int}
    (ha : t.Holds a)
    (hb : t.Holds b)
    (haLong : long.Holds a)
    (hbLong : long.Holds b) :
    t.xor a b =
      (BitVec.ofInt 64 a ^^^ BitVec.ofInt 64 b).toInt := by
  cases t with
  | int =>
      rw [ofInt_eq_signExtend ha, ofInt_eq_signExtend hb,
        ← BitVec.signExtend_xor,
        BitVec.toInt_signExtend_of_le (by decide)]
      rfl
  | uint =>
      rw [xor_of_unsigned rfl ha hb]
      exact (toInt_xor_ofInt ⟨ha.1, haLong.2⟩
        ⟨hb.1, hbLong.2⟩).symm
  | long => rfl
  | ulong =>
      rw [xor_of_unsigned rfl ha hb]
      exact (toInt_xor_ofInt ⟨ha.1, haLong.2⟩
        ⟨hb.1, hbLong.2⟩).symm

end CType

------------------------------------------------------------
-- Operations in a Type
------------------------------------------------------------

/-
  The type holds the operands and the result, and also the
  quotient if a remainder is asked for.
-/
def Operator.fits
    (op : Operator)
    (t : CType)
    (a b : Int) : Bool :=
  t.Holds a && t.Holds b &&
    (op.result? a b).all (fun v => t.Holds v) &&
      (op != .percent || t.Holds (a.tdiv b))

theorem Operator.fits_iff
    {op : Operator}
    {t : CType}
    {a b v : Int}
    (hResult : op.result? a b = some v) :
    op.fits t a b = true ↔
      t.Holds a ∧ t.Holds b ∧ t.Holds v ∧
        (op = .percent → t.Holds (a.tdiv b)) := by
  simp only [fits, hResult, Option.all_some, Bool.and_eq_true,
    Bool.or_eq_true, bne_iff_ne, decide_eq_true_eq, and_assoc,
    ← Decidable.imp_iff_not_or]

namespace CType

/- In a type that holds the operands, the exact result is calculated. -/
theorem compute?_eq_outcome?
    {t : CType}
    {op : Operator}
    {a b : Int}
    (ha : t.Holds a)
    (hb : t.Holds b)
    (haLong : long.Holds a)
    (hbLong : long.Holds b)
    (hQuotient : op = .percent → t.Holds (a.tdiv b)) :
    t.compute? op a b = op.outcome? a b := by
  cases op with
  | plus => rfl
  | minus => rfl
  | times => rfl
  | slash => rfl
  | percent => simp [compute?, Operator.outcome?, hQuotient rfl]
  | caret =>
      rw [compute?, Operator.outcome?,
        xor_eq ha hb haLong hbLong]

theorem isSigned_common
    {s t : CType}
    (hs : s.isSigned = true)
    (ht : t.isSigned = true) :
    (s.common t).isSigned = true := by
  unfold common
  split
  · exact ht
  · exact hs

/- The greater of two signed types holds what the lesser holds. -/
theorem holds_of_rank_le
    {s t : CType}
    {v : Int}
    (hs : s.isSigned = true)
    (ht : t.isSigned = true)
    (hRank : s.rank ≤ t.rank)
    (h : s.Holds v) :
    t.Holds v := by
  cases s with
  | int =>
      cases t with
      | int => exact h
      | uint => contradiction
      | long =>
          simp only [holds_iff, least, greatest] at h ⊢
          omega
      | ulong => contradiction
  | uint => contradiction
  | long =>
      cases t with
      | int => exact absurd hRank (by decide)
      | uint => contradiction
      | long => exact h
      | ulong => contradiction
  | ulong => contradiction

/- Of two signed types, the common one holds what either holds. -/
theorem holds_common
    {s t : CType}
    {v : Int}
    (hs : s.isSigned = true)
    (ht : t.isSigned = true)
    (h : s.Holds v ∨ t.Holds v) :
    (s.common t).Holds v := by
  unfold common
  split
  · rename_i hRank
    rcases h with h | h
    · exact holds_of_rank_le hs ht hRank h
    · exact h
  · rename_i hRank
    rcases h with h | h
    · exact h
    · exact holds_of_rank_le ht hs (by omega) h

end CType

namespace CInt

/- Where the common type fits, an operation has its result. -/
theorem arith?_of_fits
    {op : Operator}
    {a b : CInt}
    {v : Int}
    (haLong : CType.long.Holds a.value)
    (hbLong : CType.long.Holds b.value)
    (hFits : op.fits (a.type.common b.type) a.value b.value =
      true)
    (hResult : op.result? a.value b.value = some v) :
    ∃ hHolds, arith? op a b =
      some ⟨a.type.common b.type, v, hHolds⟩ := by
  rcases (Operator.fits_iff hResult).mp hFits with
    ⟨ha, hb, hv, hQuotient⟩
  have hCompute := CType.compute?_eq_outcome? ha hb haLong hbLong
    hQuotient
  rcases Option.bind_eq_some_iff.mp hResult with ⟨u, hu, hLong⟩
  rw [(long?_eq_some_iff.mp hLong).2] at hu
  refine ⟨hv, ?_⟩
  simp [arith?, bring?_of_holds ha, bring?_of_holds hb,
    hCompute, hu, bring?_of_holds hv]

/- Where a signed type does not fit, an operation has no result. -/
theorem arith?_eq_none
    {op : Operator}
    {a b : CInt}
    {v : Int}
    (haLong : CType.long.Holds a.value)
    (hbLong : CType.long.Holds b.value)
    (haSigned : a.type.isSigned = true)
    (hbSigned : b.type.isSigned = true)
    (hFits : op.fits (a.type.common b.type) a.value b.value =
      false)
    (hResult : op.result? a.value b.value = some v) :
    arith? op a b = none := by
  have hSigned := CType.isSigned_common haSigned hbSigned
  have ha := CType.holds_common haSigned hbSigned (.inl a.holds)
  have hb := CType.holds_common haSigned hbSigned (.inr b.holds)
  rcases Option.bind_eq_some_iff.mp hResult with ⟨u, hu, hLong⟩
  rw [(long?_eq_some_iff.mp hLong).2] at hu
  simp only [arith?, bring?_of_holds ha, bring?_of_holds hb,
    Option.bind_some]
  by_cases hQuotient : op = .percent →
      (a.type.common b.type).Holds (a.value.tdiv b.value)
  · rw [CType.compute?_eq_outcome? ha hb haLong hbLong hQuotient,
      hu, Option.bind_some, bring?_of_isSigned hSigned]
    apply ofInt?_eq_none
    intro hv
    have hAll := (Operator.fits_iff hResult).mpr
      ⟨ha, hb, hv, hQuotient⟩
    exact absurd hAll (Bool.eq_false_iff.mp hFits)
  · rcases Decidable.not_imp_iff_and_not.mp hQuotient with
      ⟨rfl, hNone⟩
    simp [CType.compute?, hNone]

end CInt

------------------------------------------------------------
-- Types of Expressions
------------------------------------------------------------

namespace ArithTree

/- The type in which C calculates the expression. -/
def type : ArithTree → CType
  | .number numeral =>
      ((CInt.ofConstant? numeral).map CInt.type).getD .int
  | .var _ => .long
  | .status => .int
  | .backgroundPid => .int
  | .minus e => e.type
  | .plus e => e.type
  | .binary _ left right => left.type.common right.type

/- Whether all numerals of the expression have signed types. -/
def isSigned : ArithTree → Bool
  | .number numeral => (type (.number numeral)).isSigned
  | .var _ => true
  | .status => true
  | .backgroundPid => true
  | .minus e => e.isSigned
  | .plus e => e.isSigned
  | .binary _ left right => left.isSigned && right.isSigned

/- Whether the variables of the expression are read alike in base ten. -/
def readsAlike
    (w : World)
    (e : ArithTree) : Bool :=
  e.names.all fun name =>
    (w.var name).text.arithValue? ==
      some (w.var name).text.strtol

/- Whether the type of each operation fits its operands and its result. -/
def fits
    (w : World) : ArithTree → Bool
  | .number _ => true
  | .var _ => true
  | .status => true
  | .backgroundPid => true
  | .minus e =>
      e.fits w && (e.value? w).all fun v => e.type.Holds (-v)
  | .plus e => e.fits w
  | .binary op left right =>
      left.fits w && right.fits w &&
        (left.value? w).all fun a =>
          (right.value? w).all fun b =>
            op.fits (left.type.common right.type) a b

theorem readsAlike_binary
    (w : World)
    (op : Operator)
    (left right : ArithTree) :
    (binary op left right).readsAlike w =
      (left.readsAlike w && right.readsAlike w) :=
  List.all_append

/- The variables of an expression with a value have values. -/
theorem exists_arithValue?
    {w : World}
    {e : ArithTree}
    {v : Int}
    (h : e.value? w = some v)
    {name : Text}
    (hName : name ∈ e.names) :
    ∃ u, (w.var name).text.arithValue? = some u := by
  induction e generalizing v with
  | number numeral => simp [names] at hName
  | var other =>
      rw [List.mem_singleton.mp hName]
      exact ⟨v, h⟩
  | status => simp [names] at hName
  | backgroundPid => simp [names] at hName
  | minus e ih =>
      rcases Option.bind_eq_some_iff.mp h with ⟨u, hu, -⟩
      exact ih hu hName
  | plus e ih => exact ih h hName
  | binary op left right ihLeft ihRight =>
      rcases value?_binary_eq_some_iff.mp h with ⟨a, b, ha, hb, -⟩
      rcases List.mem_append.mp hName with hName | hName
      · exact ihLeft ha hName
      · exact ihRight hb hName

/- Decimal numerals are read alike. -/
theorem readsAlike_of_isDecimal
    {w : World}
    {e : ArithTree}
    {v : Int}
    (h : e.value? w = some v)
    (hDecimal : ∀ name ∈ e.names,
      (w.var name).text.isDecimal = true) :
    e.readsAlike w = true := by
  rw [readsAlike, List.all_eq_true]
  intro name hName
  rcases exists_arithValue? h hName with ⟨u, hu⟩
  rw [Text.strtol_of_arithValue? (hDecimal name hName) hu, hu]
  exact BEq.rfl

theorem isSigned_type
    {e : ArithTree}
    (h : e.isSigned = true) :
    e.type.isSigned = true := by
  induction e with
  | number numeral => exact h
  | var name => rfl
  | status => rfl
  | backgroundPid => rfl
  | minus e ih => exact ih h
  | plus e ih => exact ih h
  | binary op left right ihLeft ihRight =>
      simp only [isSigned, Bool.and_eq_true] at h
      exact CType.isSigned_common (ihLeft h.1) (ihRight h.2)

end ArithTree

------------------------------------------------------------
-- Numerals and Variables
------------------------------------------------------------

/- No numeral ends in the suffix of `long`. -/
theorem Numeral.getLast?_ne_suffix
    {numeral : Text}
    {n : Nat}
    (h : value? numeral = some n) :
    numeral.getLast? ≠ some 'L' := by
  have hDigits : (split numeral).2 ≠ [] ∧
      (split numeral).2.all
        (digitValue · < (split numeral).1) = true := by
    unfold value? ofDigits? at h
    split at h
    · assumption
    · contradiction
  have hBase : (split numeral).1 ≤ 16 := by
    unfold split
    split <;> simp
  have hSuffix : (split numeral).2 <:+ numeral := by
    unfold split
    split
    · exact ⟨['0', 'x'], rfl⟩
    · exact ⟨['0', 'X'], rfl⟩
    · exact List.suffix_refl _
    · exact List.suffix_refl _
  rcases hSuffix with ⟨front, hFront⟩
  intro hEnd
  have hLast : (split numeral).2.getLast? = some 'L' := by
    rw [← hFront, List.getLast?_append] at hEnd
    cases hDigit : (split numeral).2.getLast? with
    | none =>
        exact absurd (List.getLast?_eq_none_iff.mp hDigit)
          hDigits.1
    | some c =>
        rw [hDigit] at hEnd
        exact hEnd
  have hL := List.all_eq_true.mp hDigits.2 'L'
    (List.mem_of_getLast? hLast)
  have hValue : digitValue 'L' = 16 := by decide
  rw [hValue, decide_eq_true_eq] at hL
  omega

/- A numeral of 64 bits is a constant of its value. -/
theorem CInt.exists_ofConstant?
    {numeral : Text}
    {n : Nat}
    (hValue : Numeral.value? numeral = some n)
    (hLong : CType.long.Holds n) :
    ∃ c, ofConstant? numeral = some c ∧ c.value = n := by
  have hPlain : (numeral.getLast? == some 'L') = false := by
    rw [beq_eq_false_iff_ne]
    exact Numeral.getLast?_ne_suffix hValue
  have hFound : ∀ isDecimal, ∃ c,
      (constantTypes false isDecimal).findSome?
        (fun t => ofInt? t n) = some c ∧ c.value = n := by
    intro isDecimal
    have hSome : ((constantTypes false isDecimal).findSome?
        fun t => ofInt? t n).isSome = true := by
      rw [List.findSome?_isSome_iff]
      refine ⟨.long, ?_, ?_⟩
      · cases isDecimal <;> decide
      · rw [ofInt?_of_holds hLong]
        rfl
    rcases Option.isSome_iff_exists.mp hSome with ⟨c, hc⟩
    rcases List.exists_of_findSome?_eq_some hc with ⟨t, -, ht⟩
    refine ⟨c, hc, ?_⟩
    unfold ofInt? at ht
    split at ht
    · cases ht
      rfl
    · contradiction
  unfold ofConstant?
  simp only [hPlain, Bool.false_eq_true, if_false, hValue,
    Option.bind_some]
  exact hFound _

/- A variable is the number that its text starts with. -/
theorem World.int?_variable
    (w : World)
    {name : Text}
    (hName : Text.isName name = true) :
    w.int? (IntExpr.ofString (.variable name)).toC =
      some (.ofStrtol (w.var name).text) := by
  rw [IntExpr.int?_toC, IntExpr.value?,
    StringExpr.value?_variable w hName]
  rfl

------------------------------------------------------------
-- Values in C
------------------------------------------------------------

namespace ArithTree

variable {w : World}

/- An expression that fits has the same value in C. -/
theorem int?_toC_of_fits
    {e : ArithTree}
    {v : Int}
    (hNames : ∀ name ∈ e.names, Text.isName name = true)
    (hAlike : e.readsAlike w = true)
    (hFits : e.fits w = true)
    (hValue : e.value? w = some v) :
    ∃ hHolds, w.int? e.toC = some ⟨e.type, v, hHolds⟩ := by
  induction e generalizing v with
  | number numeral =>
      rcases Option.bind_eq_some_iff.mp hValue with ⟨n, hn, hv⟩
      rcases long?_eq_some_iff.mp hv with ⟨hLong, rfl⟩
      rcases CInt.exists_ofConstant? hn hLong with ⟨c, hc, hcv⟩
      have hType : type (.number numeral) = c.type := by
        simp [type, hc]
      rw [toC, World.int?_number, hc, hType, ← hcv]
      exact ⟨c.holds, rfl⟩
  | var name =>
      have hSame : (w.var name).text.arithValue? =
          some (w.var name).text.strtol := by
        simpa [readsAlike, names] using hAlike
      have hv : (w.var name).text.strtol = v := by
        rw [value?, hSame] at hValue
        exact Option.some.inj hValue
      rw [toC, w.int?_variable (hNames name (by simp [names])),
        ← hv]
      exact ⟨_, rfl⟩
  | status =>
      cases hValue
      exact ⟨(World.intOf w.status).holds,
        IntExpr.int?_toC w .status⟩
  | backgroundPid =>
      cases hValue
      exact ⟨(World.intOf w.job).holds,
        IntExpr.int?_toC w .backgroundPid⟩
  | minus e ih =>
      rcases Option.bind_eq_some_iff.mp hValue with ⟨u, hu, hv⟩
      rcases long?_eq_some_iff.mp hv with ⟨-, rfl⟩
      simp only [fits, hu, Option.all_some, Bool.and_eq_true,
        decide_eq_true_eq] at hFits
      rcases ih hNames hAlike hFits.1 hu with ⟨hHolds, hInside⟩
      refine ⟨hFits.2, ?_⟩
      rw [toC, World.int?_unary, hInside]
      exact CInt.bring?_of_holds hFits.2
  | plus e ih =>
      rcases ih hNames hAlike hFits hValue with ⟨hHolds, hInside⟩
      refine ⟨hHolds, ?_⟩
      rw [toC, World.int?_unary, hInside]
      rfl
  | binary op left right ihLeft ihRight =>
      rcases value?_binary_eq_some_iff.mp hValue with
        ⟨a, b, ha, hb, hv⟩
      simp only [fits, ha, hb, Option.all_some,
        Bool.and_eq_true] at hFits
      rw [readsAlike_binary, Bool.and_eq_true] at hAlike
      simp only [names, List.mem_append] at hNames
      rcases ihLeft (fun name h => hNames name (.inl h))
        hAlike.1 hFits.1.1 ha with ⟨hLeft, hLeftValue⟩
      rcases ihRight (fun name h => hNames name (.inr h))
        hAlike.2 hFits.1.2 hb with ⟨hRight, hRightValue⟩
      rw [toC, World.int?_binary, hLeftValue, hRightValue]
      exact CInt.arith?_of_fits (a := ⟨_, a, hLeft⟩)
        (b := ⟨_, b, hRight⟩) (holds_of_value? ha)
        (holds_of_value? hb) hFits.2 hv

/-
  An expression of signed numerals that does not fit has no
  value in C.
-/
theorem int?_toC_eq_none
    {e : ArithTree}
    {v : Int}
    (hNames : ∀ name ∈ e.names, Text.isName name = true)
    (hAlike : e.readsAlike w = true)
    (hSigned : e.isSigned = true)
    (hFits : e.fits w = false)
    (hValue : e.value? w = some v) :
    w.int? e.toC = none := by
  induction e generalizing v with
  | number numeral => contradiction
  | var name => contradiction
  | status => contradiction
  | backgroundPid => contradiction
  | minus e ih =>
      rcases Option.bind_eq_some_iff.mp hValue with ⟨u, hu, -⟩
      rw [toC, World.int?_unary]
      by_cases hInner : e.fits w = true
      · rcases int?_toC_of_fits (e := e) hNames hAlike hInner hu
          with ⟨hHolds, hInside⟩
        have hNot : ¬ e.type.Holds (-u) := by
          simpa [fits, hu, hInner] using hFits
        rw [hInside]
        exact (CInt.bring?_of_isSigned
          (isSigned_type hSigned) _).trans
            (CInt.ofInt?_eq_none hNot)
      · rw [ih hNames hAlike hSigned
          (Bool.eq_false_iff.mpr hInner) hu]
        rfl
  | plus e ih =>
      rw [toC, World.int?_unary,
        ih hNames hAlike hSigned hFits hValue]
      rfl
  | binary op left right ihLeft ihRight =>
      rcases value?_binary_eq_some_iff.mp hValue with
        ⟨a, b, ha, hb, hv⟩
      simp only [isSigned, Bool.and_eq_true] at hSigned
      rw [readsAlike_binary, Bool.and_eq_true] at hAlike
      simp only [names, List.mem_append] at hNames
      have hLeftNames := fun name h => hNames name (.inl h)
      have hRightNames := fun name h => hNames name (.inr h)
      rw [toC, World.int?_binary]
      by_cases hLeft : left.fits w = true
      · rcases int?_toC_of_fits hLeftNames hAlike.1 hLeft ha with
          ⟨hLeftHolds, hLeftValue⟩
        rw [hLeftValue, Option.bind_some]
        by_cases hRight : right.fits w = true
        · rcases int?_toC_of_fits hRightNames hAlike.2 hRight hb
            with ⟨hRightHolds, hRightValue⟩
          have hOp : op.fits (left.type.common right.type) a b =
              false := by
            simpa [fits, ha, hb, hLeft, hRight] using hFits
          rw [hRightValue]
          exact CInt.arith?_eq_none (a := ⟨_, a, hLeftHolds⟩)
            (b := ⟨_, b, hRightHolds⟩) (holds_of_value? ha)
            (holds_of_value? hb) (isSigned_type hSigned.1)
            (isSigned_type hSigned.2) hOp hv
        · rw [ihRight hRightNames hAlike.2 hSigned.2
            (Bool.eq_false_iff.mpr hRight) hb]
          rfl
      · rw [ihLeft hLeftNames hAlike.1 hSigned.1
          (Bool.eq_false_iff.mpr hLeft) ha]
        rfl

end ArithTree

------------------------------------------------------------
-- Texts
------------------------------------------------------------

namespace ArithExpr

/-
  The C text of an arithmetic expression is read as the same
  expression.  If every variable is read alike, as decimal
  numerals are, it has the value of the expression where each
  operation fits its type.  Where one does not fit, it has no
  value, unless unsigned numerals make it go round.
-/
theorem render_agrees_of_fits
    (w : World)
    (text : Text)
    (arith : ArithExpr)
    (e : ArithTree)
    (v : Int)
    (hOk : ofText text = .ok arith)
    (hDerives : ArithTree.Derives 0 arith.tokens e)
    (hValue : e.value? w = some v) :
    CExpr.ofText? arith.render = some e.toC ∧
    ((∀ name ∈ e.names, (w.var name).text.isDecimal = true) →
      e.readsAlike w = true) ∧
    (e.readsAlike w = true →
      (e.fits w = true → ∃ n,
        w.intValue? arith.render = some n ∧
          n.type = e.type ∧ n.value = v) ∧
      (e.isSigned = true → e.fits w = false →
        w.intValue? arith.render = none)) := by
  have hRead := hDerives.ofText?_render (isLegible_of_ofText hOk)
  have hNames := hDerives.isName_of_ofText hOk
  have hInt : w.intValue? arith.render = w.int? e.toC := by
    rw [World.intValue?, hRead, Option.bind_some]
  rw [hInt]
  refine ⟨hRead, ArithTree.readsAlike_of_isDecimal hValue,
    fun hAlike => ⟨?_, ?_⟩⟩
  · intro hFits
    rcases ArithTree.int?_toC_of_fits hNames hAlike hFits hValue
      with ⟨hHolds, hC⟩
    exact ⟨_, hC, rfl, rfl⟩
  · intro hSigned hFits
    exact ArithTree.int?_toC_eq_none hNames hAlike hSigned hFits
      hValue

/- A product beyond 32 bits, with an operation of 32 bits beside it. -/
theorem render_agrees_of_fits_of_product :
    let w := World.ofEnv fun _ => CString.ofText? "4294967296"
    let text : Text := "n * 65536 - (0x10 ^ -3)"
    let e := ArithTree.binary .minus
      (.binary .times (.var "n") (.number "65536"))
      (.binary .caret (.number "0x10") (.minus (.number "3")))
    ∃ arith, ofText text = .ok arith ∧
      ArithTree.Derives 0 arith.tokens e ∧
      e.value? w = some 281474976710675 ∧
      (∀ name ∈ e.names,
        (w.var name).text.isDecimal = true) ∧
      e.fits w = true ∧
      ∃ n, w.intValue? arith.render = some n ∧
        n.type = .long ∧ n.value = 281474976710675 := by
  intro w text e
  let arith : ArithExpr :=
    ⟨[.var "n", .operator .times, .number "65536",
      .operator .minus, .leftParen, .number "0x10",
      .operator .caret, .operator .minus, .number "3",
      .rightParen]⟩
  have hOk : ofText text = .ok arith :=
    eq_ok_of_toOption (by decide +kernel)
  have hProduct : ArithTree.Derives 1
      [.var "n", .operator .times, .number "65536"]
      (.binary .times (.var "n") (.number "65536")) :=
    .lower (by decide) (.binary .times
      (.lower (by decide) (.var _)) (.number _))
  have hInside : ArithTree.Derives 0
      [.number "0x10", .operator .caret, .operator .minus,
        .number "3"]
      (.binary .caret (.number "0x10")
        (.minus (.number "3"))) :=
    .binary .caret (.lower (by decide) (.number _))
      (.lower (by decide) (.minus (.number _)))
  have hDerives : ArithTree.Derives 0 arith.tokens e :=
    .lower (by decide) (.binary .minus hProduct
      (.lower (by decide) hInside.paren))
  have hValue : e.value? w = some 281474976710675 := by
    decide +kernel
  have hFits : e.fits w = true := by decide +kernel
  have hType : e.type = .long := by decide +kernel
  have hAgrees := render_agrees_of_fits w text arith e _ hOk
    hDerives hValue
  rw [hType] at hAgrees
  have hDecimal : ∀ name ∈ e.names,
      (w.var name).text.isDecimal = true := by
    decide +kernel
  exact ⟨arith, hOk, hDerives, hValue, hDecimal, hFits,
    (hAgrees.2.2 (hAgrees.2.1 hDecimal)).1 hFits⟩

/-
  A sum of numerals of 32 bits has no value, a sum of
  unsigned ones goes round, and a variable that starts with
  the digit zero is read in base ten.
-/
theorem render_of_narrow :
    let w := World.ofEnv fun _ => CString.ofText? "010"
    let gives (text : Text) (e : ArithTree) (v : Int)
        (c : Option Int) : Prop :=
      ∃ arith, ofText text = .ok arith ∧
        ArithTree.Derives 0 arith.tokens e ∧
        e.value? w = some v ∧
        (w.intValue? arith.render).map CInt.value = c
    gives "2147483647 + 1"
      (.binary .plus (.number "2147483647") (.number "1"))
      2147483648 none ∧
    gives "0xFFFFFFFF + 1"
      (.binary .plus (.number "0xFFFFFFFF") (.number "1"))
      4294967296 (some 0) ∧
    gives "n" (.var "n") 8 (some 10) := by
  intro w gives
  have hSum (a b : Text) : ArithTree.Derives 0
      [.number a, .operator .plus, .number b]
      (.binary .plus (.number a) (.number b)) :=
    .lower (by decide) (.binary .plus
      (.lower (by decide) (.number a))
      (.lower (by decide) (.number b)))
  refine ⟨?_, ?_, ?_⟩
  · exact ⟨⟨_⟩, eq_ok_of_toOption (by decide +kernel),
      hSum "2147483647" "1", by decide +kernel,
      by decide +kernel⟩
  · exact ⟨⟨_⟩, eq_ok_of_toOption (by decide +kernel),
      hSum "0xFFFFFFFF" "1", by decide +kernel,
      by decide +kernel⟩
  · exact ⟨⟨_⟩, eq_ok_of_toOption (by decide +kernel),
      .lower (by decide) (.var "n"), by decide +kernel,
      by decide +kernel⟩

end ArithExpr

end ShellToC
