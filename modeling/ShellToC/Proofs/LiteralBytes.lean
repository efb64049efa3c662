import ShellToC.Proofs.ExprMeaning

/-
  This file gives C expressions their values where string
  literals may hold any characters.

  A program is kept in UTF-8, so what stands in a literal is
  the bytes of its characters, and as a string it ends at the
  first zero.  An expression that has a value where literals
  hold ASCII characters only has the same value here.

  The number that a literal starts with can be read from its
  characters, since no other character has a byte that is
  white space, a sign or a digit.

  Key definitions include:
    * `Text.utf8`
    * `CString.ofUtf8`
    * `World.evalUtf8`
    * `World.utf8Value?`

  Main declarations:
    * `World.evalUtf8_of_eval`
    * `Text.strtol_ofUtf8`
    * `IntExpr.utf8Int?_literal`
-/

namespace ShellToC

------------------------------------------------------------
-- Bytes of Characters
------------------------------------------------------------

namespace Text

/- The bytes of a text in UTF-8, each as the character of its code. -/
def utf8
    (text : Text) : Text :=
  text.flatMap fun c =>
    (String.utf8EncodeChar c).map fun b => Char.ofNat b.toNat

theorem utf8_append
    (a b : Text) :
    utf8 (a ++ b) = utf8 a ++ utf8 b :=
  List.flatMap_append

/- An ASCII character is its own byte. -/
theorem utf8_ascii
    {c : Char}
    (h : c.toNat < 128) :
    utf8 [c] = [c] := by
  have hSize : c.utf8Size = 1 := by
    rw [Char.utf8Size_eq_one_iff, UInt32.le_iff_toNat_le]
    exact Nat.le_of_lt_succ h
  have hByte : c.toUInt8.toNat = c.toNat := by
    rw [Char.toUInt8, UInt32.toNat_toUInt8, Char.toNat_val]
    exact Nat.mod_eq_of_lt (by omega)
  simp [utf8, String.utf8EncodeChar_eq_singleton hSize, hByte]

theorem toNat_ofByte
    (b : UInt8) :
    (Char.ofNat b.toNat).toNat = b.toNat := by
  have hValid : b.toNat.isValidChar :=
    .inl (Nat.lt_trans b.toNat_lt (by decide))
  rw [Char.ofNat, dif_pos hValid]
  rfl

/- A text that holds no other characters is its own bytes. -/
theorem utf8_of_ascii
    {text : Text}
    (h : ∀ c ∈ text, c.toNat < 128) :
    utf8 text = text := by
  induction text with
  | nil => rfl
  | cons c text ih =>
      rw [List.forall_mem_cons] at h
      rw [← List.singleton_append, utf8_append, utf8_ascii h.1,
        ih h.2]

/- The bytes of other characters are not ASCII characters. -/
theorem utf8_other
    {c : Char}
    (h : 128 ≤ c.toNat) :
    utf8 [c] ≠ [] ∧
      ∀ b ∈ utf8 [c], 128 ≤ b.toNat := by
  have hLarge : ¬ c.val.toNat ≤ 127 := by
    rw [Char.toNat_val]
    omega
  rw [utf8, List.flatMap_singleton]
  simp only [ne_eq, List.map_eq_nil_iff, List.forall_mem_map,
    toNat_ofByte]
  unfold String.utf8EncodeChar
  simp only [hLarge, if_false]
  split
  · simp
    omega
  split
  · simp
    omega
  · simp
    omega

theorem all_lt_utf8
    (text : Text) :
    (utf8 text).all (·.toNat < 256) = true := by
  rw [List.all_eq_true]
  intro b hb
  simp only [utf8, List.mem_flatMap, List.mem_map] at hb
  rcases hb with ⟨_, -, byte, -, rfl⟩
  rw [toNat_ofByte]
  exact decide_eq_true byte.toNat_lt

end Text

------------------------------------------------------------
-- Bytes of Literals
------------------------------------------------------------

namespace Literal

/- What is no ASCII character stands for itself. -/
theorem escape_other
    (afterQuestion : Bool)
    {c : Char}
    (h : 128 ≤ c.toNat) :
    escape afterQuestion c = [c] := by
  have hNe {d : Char} (hd : d.toNat < 128) : c ≠ d := by
    rintro rfl
    omega
  have hControl : isControl c = false := by
    simp only [isControl, Bool.or_eq_false_iff,
      decide_eq_false_iff_not, beq_eq_false_iff_ne]
    omega
  unfold escape
  simp [hNe, hControl]

/- Bytes that are no ASCII characters stand for themselves. -/
theorem escapeFrom_other
    (afterQuestion : Bool)
    {bytes : Text}
    (hNonempty : bytes ≠ [])
    (hBytes : ∀ b ∈ bytes, 128 ≤ b.toNat)
    (rest : Text) :
    escapeFrom afterQuestion (bytes ++ rest) =
      bytes ++ escapeFrom false rest := by
  induction bytes generalizing afterQuestion with
  | nil => contradiction
  | cons b bytes ih =>
      rw [List.forall_mem_cons] at hBytes
      have hMark : (b == '?') = false := by
        rw [beq_eq_false_iff_ne]
        rintro rfl
        exact absurd hBytes.1 (by decide)
      rw [List.cons_append, escapeFrom, escape_other _ hBytes.1,
        hMark]
      cases bytes with
      | nil => rfl
      | cons d bytes =>
          rw [ih _ (List.cons_ne_nil _ _) hBytes.2]
          rfl

theorem ascii_digitChar
    (n : Nat) :
    (Nat.digitChar (n % 8)).toNat < 128 := by
  have hOctal := octal_digitChar (Nat.mod_lt n (by decide))
  simp only [isOctal, Bool.and_eq_true,
    decide_eq_true_eq] at hOctal
  omega

/- An ASCII character is written with ASCII characters. -/
theorem escape_ascii
    (afterQuestion : Bool)
    {c : Char}
    (h : c.toNat < 128) :
    ∀ d ∈ escape afterQuestion c, d.toNat < 128 := by
  unfold escape
  split
  · simpa using h
  split
  · simp
  split
  · simp
  split
  · simp
  split
  · simp
  split
  · simp [octal, ascii_digitChar]
  · simpa using h

/- The bytes of a literal are the literal of the bytes. -/
theorem utf8_escapeFrom
    (afterQuestion : Bool)
    (text : Text) :
    Text.utf8 (escapeFrom afterQuestion text) =
      escapeFrom afterQuestion (Text.utf8 text) := by
  induction text generalizing afterQuestion with
  | nil => rfl
  | cons c rest ih =>
      rw [escapeFrom, Text.utf8_append, ih,
        ← List.singleton_append, Text.utf8_append]
      by_cases hc : c.toNat < 128
      · rw [Text.utf8_of_ascii (escape_ascii _ hc),
          Text.utf8_ascii hc]
        rfl
      · have hMark : (c == '?') = false := by
          rw [beq_eq_false_iff_ne]
          rintro rfl
          exact hc (by decide)
        rcases Text.utf8_other (Nat.le_of_not_lt hc) with
          ⟨hNonempty, hBytes⟩
        rw [escape_other _ (Nat.le_of_not_lt hc), hMark,
          escapeFrom_other _ hNonempty hBytes]

theorem ascii_of_simple?
    {c d : Char}
    (h : simple? c = some d) :
    c.toNat < 128 := by
  unfold simple? at h
  split at h <;> first | decide | contradiction

theorem octalRun_append_drop
    (text : Text) :
    octalRun text ++ text.drop (octalRun text).length = text :=
  List.prefix_iff_eq_append.mp
    ((List.takeWhile_prefix _).trans (List.take_prefix _ _))

theorem ascii_of_mem_octalRun
    {text : Text}
    {c : Char}
    (h : c ∈ octalRun text) :
    c.toNat < 128 := by
  have hOctal := List.all_eq_true.mp List.all_takeWhile c h
  simp only [isOctal, Bool.and_eq_true,
    decide_eq_true_eq] at hOctal
  omega

/- What denotes ASCII characters is written with them. -/
theorem ascii_of_decode?
    {inside text : Text}
    (h : decode? inside = some text)
    (hText : ∀ c ∈ text, c.toNat < 128) :
    ∀ c ∈ inside, c.toNat < 128 := by
  have hMark : ('\x5c').toNat < 128 := by decide
  fun_induction decode? inside generalizing text with
  | case1 => simp
  | case2 => contradiction
  | case3 d rest _ ih =>
      rcases Option.bind_eq_some_iff.mp h with ⟨e, hd, hRest⟩
      rcases Option.map_eq_some_iff.mp hRest with
        ⟨decoded, hDecoded, rfl⟩
      rw [List.forall_mem_cons] at hText
      rw [List.forall_mem_cons, List.forall_mem_cons]
      exact ⟨hMark, ascii_of_simple? hd, ih hDecoded hText.2⟩
  | case4 rest _ ih =>
      rcases Option.map_eq_some_iff.mp h with
        ⟨decoded, hDecoded, rfl⟩
      rw [List.forall_mem_cons] at hText
      rw [List.forall_mem_cons, ← octalRun_append_drop rest,
        List.forall_mem_append]
      exact ⟨hMark, fun c => ascii_of_mem_octalRun,
        ih hDecoded hText.2⟩
  | case5 => contradiction
  | case6 c rest _ _ ih =>
      rcases Option.map_eq_some_iff.mp h with
        ⟨decoded, hDecoded, rfl⟩
      rw [List.forall_mem_cons] at hText ⊢
      exact ⟨hText.1, ih hDecoded hText.2⟩

end Literal

------------------------------------------------------------
-- Strings
------------------------------------------------------------

namespace CString

/- The bytes before the first zero. -/
def cut
    (bytes : Text) : Text :=
  bytes.takeWhile (· != '\x00')

theorem cut_cons
    {c : Char}
    (h : c ≠ '\x00')
    (rest : Text) :
    cut (c :: rest) = c :: cut rest := by
  simp [cut, h]

theorem areBytes_cut
    {bytes : Text}
    (h : bytes.all (·.toNat < 256) = true) :
    ∀ c ∈ cut bytes, 0 < c.toNat ∧ c.toNat < 256 := by
  intro c hc
  have hOther := List.all_eq_true.mp List.all_takeWhile c hc
  have hZero : c.toNat ≠ 0 := by
    intro hZero
    rw [(Char.toNat_inj (d := '\x00')).mp hZero] at hOther
    contradiction
  have hByte := List.all_eq_true.mp h c (List.takeWhile_subset _ hc)
  exact ⟨Nat.pos_of_ne_zero hZero, of_decide_eq_true hByte⟩

/- The string that starts where the bytes do. -/
def ofBytes?
    (bytes : Text) : Option CString :=
  if h : bytes.all (·.toNat < 256) = true then
    some ⟨cut bytes, areBytes_cut h⟩
  else
    none

/- The byte at a place of a string, as an integer. -/
def intAt
    (s : CString)
    (position : Nat) : CInt :=
  ⟨.int, s.byteAt position, s.holds_byteAt position⟩

/- The string of a text in UTF-8. -/
def ofUtf8
    (text : Text) : CString :=
  ⟨cut text.utf8, areBytes_cut text.all_lt_utf8⟩

theorem ofBytes?_utf8
    (text : Text) :
    ofBytes? text.utf8 = some (ofUtf8 text) :=
  dif_pos text.all_lt_utf8

/- A text of ASCII characters is the string of its bytes. -/
theorem ofBytes?_of_ofText?
    {text : Text}
    {s : CString}
    (h : ofText? text = some s) :
    ofBytes? text = some s := by
  rcases ofText?_eq_some_iff.mp h with ⟨-, rfl⟩
  have hBytes : s.text.all (·.toNat < 256) = true := by
    rw [List.all_eq_true]
    exact fun b hb => decide_eq_true (s.areBytes b hb).2
  have hCut : cut s.text = s.text := by
    have hOther : ∀ b ∈ s.text, (b != '\x00') = true := by
      intro b hb
      rw [bne_iff_ne]
      rintro rfl
      exact absurd (s.areBytes _ hb).1 (by decide)
    have hAll := @List.takeWhile_append_of_pos _ _ _ [] hOther
    simpa [cut] using hAll
  rw [ofBytes?, dif_pos hBytes]
  congr

end CString

namespace CValue

/-
  The value of a literal whose characters are bytes in UTF-8.
  Escapes stand for single bytes.
-/
def ofUtf8?
    (quote : Char)
    (inside : Text) : Option CValue :=
  (Literal.decode? inside.utf8).bind fun bytes =>
    if quote = '\x22' then
      (CString.ofBytes? bytes).map .string
    else
      match bytes with
      | [b] =>
          if b.toNat < 128 then
            (CInt.ofInt? .int b.toNat).map .int
          else
            none
      | _ => none

/- A literal of ASCII characters keeps its value. -/
theorem ofUtf8?_of_ofLiteral?
    {quote : Char}
    {inside : Text}
    {v : CValue}
    (h : ofLiteral? quote inside = some v) :
    ofUtf8? quote inside = some v := by
  rcases Option.bind_eq_some_iff.mp h with ⟨text, hText, hv⟩
  have hSame (hAscii : ∀ c ∈ text, c.toNat < 128) :
      Literal.decode? inside.utf8 = some text := by
    rw [Text.utf8_of_ascii
      (Literal.ascii_of_decode? hText hAscii)]
    exact hText
  by_cases hQuote : quote = '\x22'
  · rw [if_pos hQuote] at hv
    rcases Option.map_eq_some_iff.mp hv with ⟨s, hs, rfl⟩
    have hPlain := (CString.ofText?_eq_some_iff.mp hs).1
    have hAscii : ∀ c ∈ text, c.toNat < 128 := by
      intro c hc
      have hChar := List.all_eq_true.mp hPlain c hc
      simp only [Bool.and_eq_true, decide_eq_true_eq] at hChar
      exact hChar.2
    rw [ofUtf8?, hSame hAscii, Option.bind_some,
      if_pos hQuote, CString.ofBytes?_of_ofText? hs]
    rfl
  · rw [if_neg hQuote] at hv
    split at hv
    · rename_i c
      split at hv
      · rename_i hc
        rw [ofUtf8?, hSame (by simpa using hc),
          Option.bind_some, if_neg hQuote]
        simp only [hc, if_true]
        exact hv
      · contradiction
    · contradiction

end CValue

------------------------------------------------------------
-- Evaluation
------------------------------------------------------------

namespace World

/- The value of an expression whose literals hold bytes in UTF-8. -/
def evalUtf8
    (w : World) : CExpr → Option CValue
  | .word name => w.word? name
  | .number text => (CInt.ofConstant? text).map .int
  | .literal quote inside => CValue.ofUtf8? quote inside
  | .unary op e =>
      ((evalUtf8 w e).bind CValue.int?).bind fun n =>
        (CInt.unary? op n).map .int
  | .binary op left right =>
      ((evalUtf8 w left).bind CValue.int?).bind fun a =>
        ((evalUtf8 w right).bind CValue.int?).bind fun b =>
          (CInt.binary? op a b).map .int
  | .index array position =>
      ((evalUtf8 w array).bind CValue.string?).bind fun s =>
        ((evalUtf8 w position).bind CValue.int?).bind fun n =>
          if 0 ≤ n.value ∧ n.value ≤ s.text.length then
            some (.int (s.intAt n.value.toNat))
          else
            none
  | .call function arg =>
      (Helper.ofName? function).bind fun helper =>
        ((evalUtf8 w arg).bind CValue.string?).bind
          (w.help? helper)
  | .callTwo function first second =>
      if function = "strcmp" then
        ((evalUtf8 w first).bind CValue.string?).bind fun a =>
          ((evalUtf8 w second).bind CValue.string?).map fun b =>
            .int (intOf (w.strcmp a b))
      else
        none

/- The integer that an expression denotes. -/
def utf8Int?
    (w : World)
    (e : CExpr) : Option CInt :=
  (w.evalUtf8 e).bind CValue.int?

/- The integer that a text in UTF-8 denotes as an expression of C. -/
def utf8Value?
    (w : World)
    (text : Text) : Option CInt :=
  (CExpr.ofText? text).bind w.utf8Int?

/- A part of a value that is there is the part of the same value. -/
theorem bind_of_eval
    {α : Type}
    {a b : Option CValue}
    {part : CValue → Option α}
    {x : α}
    (h : a.bind part = some x)
    (hSame : ∀ v, a = some v → b = some v) :
    b.bind part = some x := by
  rcases Option.bind_eq_some_iff.mp h with ⟨v, hv, hPart⟩
  rw [hSame v hv, Option.bind_some, hPart]

/- An expression that has a value keeps it. -/
theorem evalUtf8_of_eval
    (w : World)
    {e : CExpr}
    {v : CValue}
    (h : w.eval e = some v) :
    w.evalUtf8 e = some v := by
  induction e generalizing v with
  | word name => exact h
  | number text => exact h
  | literal quote inside => exact CValue.ofUtf8?_of_ofLiteral? h
  | unary op e ih =>
      rcases Option.bind_eq_some_iff.mp h with ⟨n, hn, hv⟩
      rw [evalUtf8, bind_of_eval hn fun u => ih]
      exact hv
  | binary op left right ihLeft ihRight =>
      rcases Option.bind_eq_some_iff.mp h with ⟨a, ha, hRest⟩
      rcases Option.bind_eq_some_iff.mp hRest with ⟨b, hb, hv⟩
      rw [evalUtf8, bind_of_eval ha fun u => ihLeft,
        Option.bind_some, bind_of_eval hb fun u => ihRight]
      exact hv
  | index array position ihArray ihPosition =>
      rcases Option.bind_eq_some_iff.mp h with ⟨s, hs, hRest⟩
      rcases Option.bind_eq_some_iff.mp hRest with ⟨n, hn, hv⟩
      rw [evalUtf8, bind_of_eval hs fun u => ihArray,
        Option.bind_some, bind_of_eval hn fun u => ihPosition]
      exact hv
  | call function arg ih =>
      rcases Option.bind_eq_some_iff.mp h with
        ⟨helper, hHelper, hRest⟩
      rcases Option.bind_eq_some_iff.mp hRest with ⟨s, hs, hv⟩
      rw [evalUtf8, hHelper, Option.bind_some,
        bind_of_eval hs fun u => ih]
      exact hv
  | callTwo function first second ihFirst ihSecond =>
      rw [eval] at h
      rw [evalUtf8]
      split at h
      · rename_i hName
        rcases Option.bind_eq_some_iff.mp h with ⟨a, ha, hRest⟩
        rcases Option.map_eq_some_iff.mp hRest with ⟨b, hb, rfl⟩
        rw [if_pos hName, bind_of_eval ha fun u => ihFirst,
          Option.bind_some, bind_of_eval hb fun u => ihSecond]
        rfl
      · contradiction

theorem utf8Int?_of_int?
    (w : World)
    {e : CExpr}
    {n : CInt}
    (h : w.int? e = some n) :
    w.utf8Int? e = some n :=
  bind_of_eval h fun _ => w.evalUtf8_of_eval

theorem utf8Int?_binary
    (w : World)
    (op : CBinary)
    (left right : CExpr) :
    w.utf8Int? (.binary op left right) =
      (w.utf8Int? left).bind fun a =>
        (w.utf8Int? right).bind fun b =>
          CInt.binary? op a b := by
  rw [utf8Int?, evalUtf8, ← utf8Int?, ← utf8Int?]
  cases w.utf8Int? left with
  | none => rfl
  | some a =>
      cases w.utf8Int? right with
      | none => rfl
      | some b =>
          simp only [Option.bind_some]
          cases CInt.binary? op a b <;> rfl

end World

------------------------------------------------------------
-- Numbers
------------------------------------------------------------

namespace Text

/- Whether the character is an ASCII character other than zero. -/
def isPlainChar
    (c : Char) : Bool :=
  0 < c.toNat && c.toNat < 128

theorem isPlainChar_of_isSpace
    {c : Char}
    (h : CToken.isSpace c = true) :
    isPlainChar c = true := by
  simp only [isPlainChar, Bool.and_eq_true, decide_eq_true_eq]
  exact toNat_of_isSpace h

theorem isPlainChar_of_isDigit
    {c : Char}
    (h : c.isDigit = true) :
    isPlainChar c = true := by
  have hRange := Numeral.toNat_of_isDigit h
  simp only [isPlainChar, Bool.and_eq_true, decide_eq_true_eq]
  omega

/- A run of plain characters is found in the plain start of a text. -/
theorem span_takeWhile
    {p : Char → Bool}
    (h : ∀ c, p c = true → isPlainChar c = true)
    (text : Text) :
    (text.takeWhile isPlainChar).takeWhile p =
        text.takeWhile p ∧
      (text.takeWhile isPlainChar).dropWhile p =
        (text.dropWhile p).takeWhile isPlainChar := by
  induction text with
  | nil => exact ⟨rfl, rfl⟩
  | cons c text ih =>
      by_cases hc : p c = true
      · simp [List.takeWhile_cons_of_pos, h c hc, hc, ih]
      · by_cases hPlain : isPlainChar c = true
        · simp [List.takeWhile_cons_of_pos, hPlain, hc]
        · simp [List.takeWhile_cons_of_neg, hPlain, hc]

theorem leadingNat_takeWhile
    (text : Text) :
    leadingNat (text.takeWhile isPlainChar) =
      leadingNat text := by
  have hDigits := (span_takeWhile
    (fun _ => isPlainChar_of_isDigit) text).1
  rw [leadingNat, hDigits, ← leadingNat]

/- The first character that is not plain ends the number. -/
theorem strtol_takeWhile
    (text : Text) :
    strtol (text.takeWhile isPlainChar) = strtol text := by
  have hSpace := (span_takeWhile
    (fun _ => isPlainChar_of_isSpace) text).2
  by_cases hMinus :
      (text.dropWhile CToken.isSpace).head? = some '-'
  · rcases List.head?_eq_some_iff.mp hMinus with ⟨rest, hRest⟩
    rw [strtol, strtol, hSpace, hRest,
      List.takeWhile_cons_of_pos (by decide)]
    simp only [leadingNat_takeWhile]
  by_cases hPlus :
      (text.dropWhile CToken.isSpace).head? = some '+'
  · rcases List.head?_eq_some_iff.mp hPlus with ⟨rest, hRest⟩
    rw [strtol, strtol, hSpace, hRest,
      List.takeWhile_cons_of_pos (by decide)]
    simp only [leadingNat_takeWhile]
  -- Without a sign, the plain part has none either.
  · have hNone {c : Char}
        (hc : (text.dropWhile CToken.isSpace).head? ≠ some c) :
        ((text.dropWhile CToken.isSpace).takeWhile
          isPlainChar).head? ≠ some c := by
      rw [List.head?_takeWhile]
      exact fun h => hc (Option.filter_eq_some_iff.mp h).1
    rw [strtol_of_unsigned hSpace (hNone hMinus) (hNone hPlus),
      strtol_of_unsigned rfl hMinus hPlus, leadingNat_takeWhile]

/- A character that is not plain starts with a byte that is not. -/
theorem exists_utf8_of_not_isPlainChar
    {c : Char}
    (h : ¬ isPlainChar c = true) :
    ∃ b bytes, utf8 [c] = b :: bytes ∧
      ¬ isPlainChar b = true := by
  by_cases hc : c.toNat < 128
  · exact ⟨c, [], utf8_ascii hc, h⟩
  · rcases utf8_other (Nat.le_of_not_lt hc) with
      ⟨hNonempty, hBytes⟩
    rcases List.exists_cons_of_ne_nil hNonempty with
      ⟨b, bytes, hUtf8⟩
    refine ⟨b, bytes, hUtf8, ?_⟩
    have hb := hBytes b (by simp [hUtf8])
    simp only [isPlainChar, Bool.and_eq_true, decide_eq_true_eq]
    omega

/- A text and its string start with the same plain characters. -/
theorem takeWhile_cut_utf8
    (text : Text) :
    (CString.cut text.utf8).takeWhile isPlainChar =
      text.takeWhile isPlainChar := by
  induction text with
  | nil => rfl
  | cons c rest ih =>
      have hBytes : utf8 (c :: rest) = utf8 [c] ++ utf8 rest :=
        utf8_append [c] rest
      rw [hBytes]
      by_cases hPlain : isPlainChar c = true
      · have hRange : 0 < c.toNat ∧ c.toNat < 128 := by
          simpa [isPlainChar] using hPlain
        have hZero : c ≠ '\x00' := by
          rintro rfl
          exact absurd hRange.1 (by decide)
        rw [utf8_ascii hRange.2, List.singleton_append,
          CString.cut_cons hZero,
          List.takeWhile_cons_of_pos hPlain, ih,
          List.takeWhile_cons_of_pos hPlain]
      · rcases exists_utf8_of_not_isPlainChar hPlain with
          ⟨b, bytes, hUtf8, hb⟩
        rw [hUtf8, List.takeWhile_cons_of_neg hPlain,
          List.cons_append, CString.cut, List.takeWhile_cons]
        split
        · exact List.takeWhile_cons_of_neg hb
        · rfl

/- The number that a string starts with is read from its text. -/
theorem strtol_ofUtf8
    (text : Text) :
    strtol (CString.ofUtf8 text).text = strtol text := by
  rw [← strtol_takeWhile (CString.ofUtf8 text).text,
    ← strtol_takeWhile text]
  exact congrArg strtol (takeWhile_cut_utf8 text)

end Text

namespace IntExpr

theorem utf8Value?_render
    (w : World)
    (e : IntExpr) :
    w.utf8Value? e.render = w.utf8Int? e.toC := by
  rw [World.utf8Value?, e.spells_render.ofText?_eq,
    Option.bind_some]

/- Constants hold no literals. -/
theorem utf8Int?_constant
    (w : World)
    (n : Int) :
    w.utf8Int? (constant n).toC = constantValue? n := by
  rw [← int?_constant w n]
  cases n <;> rfl

/- The call that reads a literal denotes the number it starts with. -/
theorem utf8Int?_literal
    (w : World)
    (text : Text) :
    w.utf8Int? (ofString (.literal text)).toC =
      some (.ofStrtol text) := by
  have hValue : CValue.ofUtf8? '\x22'
      (Literal.escapeFrom false text) =
        some (.string (.ofUtf8 text)) := by
    rw [CValue.ofUtf8?, Literal.utf8_escapeFrom,
      Literal.decode?_escapeFrom, Option.bind_some, if_pos rfl,
      CString.ofBytes?_utf8]
    rfl
  rw [toC, StringExpr.toC, World.utf8Int?, World.evalUtf8,
    Helper.int.ofName?_name, Option.bind_some, World.evalUtf8,
    hValue]
  simp [CValue.string?, World.help?, CValue.int?,
    CInt.ofStrtol, Text.strtol_ofUtf8]

end IntExpr

end ShellToC
