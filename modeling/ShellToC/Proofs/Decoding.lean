import ShellToC.Code.Literal

/-
  This file reads string literals of C back: what the text
  between the quotes of a literal denotes.

  Each character is written in a way that is read back by
  itself, whatever follows it.

  Key definitions include:
    * `Literal.octalRun`
    * `Literal.simple?`
    * `Literal.decode?`

  Main declarations:
    * `Literal.decode?_escape_append`
    * `Literal.decode?_escapeFrom`
-/

namespace ShellToC

namespace Literal

------------------------------------------------------------
-- Escapes
------------------------------------------------------------

/- Whether the character is an octal digit. -/
def isOctal
    (c : Char) : Bool :=
  48 ≤ c.toNat && c.toNat ≤ 55

/- The digits of an octal escape: as many as there are, up to three. -/
def octalRun
    (text : Text) : Text :=
  (text.take 3).takeWhile isOctal

/- The number that octal digits denote. -/
def octalValue
    (digits : Text) : Nat :=
  digits.foldl (fun value c => 8 * value + (c.toNat - 48)) 0

/- The character that a backslash and the given character denote. -/
def simple? : Char → Option Char
  | '\x22' => some '\x22'
  | '\x27' => some '\x27'
  | '\x5c' => some '\x5c'
  | '?' => some '?'
  | 'a' => some '\x07'
  | 'b' => some '\x08'
  | 'f' => some '\x0c'
  | 'n' => some '\n'
  | 'r' => some '\x0d'
  | 't' => some '\t'
  | 'v' => some '\x0b'
  | _ => none

------------------------------------------------------------
-- Decoding
------------------------------------------------------------

/-
  The text that the inside of a literal denotes.  An inside
  with a quote, a line feed or an unknown escape denotes none.
-/
def decode? : Text → Option Text
  | [] => some []
  | c :: rest =>
      if c = '\x5c' then
        if octalRun rest = [] then
          match rest with
          | [] => none
          | d :: rest =>
              (simple? d).bind fun e =>
                (decode? rest).map (e :: ·)
        else
          (decode? (rest.drop (octalRun rest).length)).map
            (Char.ofNat (octalValue (octalRun rest)) :: ·)
      else if c = '\x22' ∨ c = '\n' then
        none
      else
        (decode? rest).map (c :: ·)
  termination_by text => text.length
  decreasing_by
    · simp only [List.length_cons]
      omega
    · simp only [List.length_cons, List.length_drop]
      omega
    · simp

/- A backslash and a character that is no digit. -/
theorem decode?_simple
    {c d : Char}
    (hOctal : isOctal c = false)
    (hSimple : simple? c = some d)
    (rest : Text) :
    decode? ('\x5c' :: c :: rest) =
      (decode? rest).map (d :: ·) := by
  have hRun : octalRun (c :: rest) = [] := by
    simp [octalRun, hOctal]
  rw [decode?]
  simp [hRun, hSimple]

/- A backslash and three digits. -/
theorem decode?_octal
    {a b c : Char}
    (ha : isOctal a = true)
    (hb : isOctal b = true)
    (hc : isOctal c = true)
    (rest : Text) :
    decode? ('\x5c' :: a :: b :: c :: rest) =
      (decode? rest).map
        (Char.ofNat (octalValue [a, b, c]) :: ·) := by
  have hRun : octalRun (a :: b :: c :: rest) = [a, b, c] := by
    simp [octalRun, ha, hb, hc]
  rw [decode?]
  simp [hRun]

/- A character that stands for itself. -/
theorem decode?_plain
    {c : Char}
    (hBackslash : c ≠ '\x5c')
    (hQuote : c ≠ '\x22')
    (hFeed : c ≠ '\n')
    (rest : Text) :
    decode? (c :: rest) = (decode? rest).map (c :: ·) := by
  rw [decode?.eq_def]
  simp [hBackslash, hQuote, hFeed]

------------------------------------------------------------
-- Reading Back
------------------------------------------------------------

/- The digits of numbers below eight. -/
theorem octal_digitChar
    {d : Nat}
    (h : d < 8) :
    isOctal (Nat.digitChar d) = true ∧
      (Nat.digitChar d).toNat - 48 = d := by
  revert d
  decide

/- The digits of a small number denote it. -/
theorem decode?_octal_append
    {n : Nat}
    (h : n < 512)
    (rest : Text) :
    decode? (octal n ++ rest) =
      (decode? rest).map (Char.ofNat n :: ·) := by
  have hHigh := octal_digitChar (d := n / 64 % 8)
    (Nat.mod_lt _ (by decide))
  have hMiddle := octal_digitChar (d := n / 8 % 8)
    (Nat.mod_lt _ (by decide))
  have hLow := octal_digitChar (d := n % 8)
    (Nat.mod_lt _ (by decide))
  have hValue : octalValue [Nat.digitChar (n / 64 % 8),
      Nat.digitChar (n / 8 % 8), Nat.digitChar (n % 8)] = n := by
    simp only [octalValue, List.foldl_cons, List.foldl_nil,
      hHigh.2, hMiddle.2, hLow.2]
    omega
  rw [octal, List.cons_append, List.cons_append,
    List.cons_append, List.cons_append, List.nil_append,
    decode?_octal hHigh.1 hMiddle.1 hLow.1, hValue]

/- A character is read back, whatever follows it. -/
theorem decode?_escape_append
    (afterQuestion : Bool)
    (c : Char)
    (rest : Text) :
    decode? (escape afterQuestion c ++ rest) =
      (decode? rest).map (c :: ·) := by
  unfold escape
  split
  next hc =>
    rcases hc with rfl | rfl
    · exact decode?_simple (by decide) rfl rest
    · exact decode?_simple (by decide) rfl rest
  split
  next hc =>
    subst hc
    exact decode?_simple (by decide) rfl rest
  split
  next hc =>
    subst hc
    exact decode?_simple (by decide) rfl rest
  split
  next hc =>
    subst hc
    exact decode?_simple (by decide) rfl rest
  split
  next hc =>
    rcases hc with ⟨rfl, -⟩
    exact decode?_simple (by decide) rfl rest
  split
  next hControl =>
    have hSmall : c.toNat < 512 := by
      simp only [isControl, Bool.or_eq_true, decide_eq_true_eq,
        beq_iff_eq] at hControl
      omega
    rw [decode?_octal_append hSmall, Char.ofNat_toNat]
  next hQuote hFeed _ _ _ _ =>
    rw [not_or] at hQuote
    exact decode?_plain hQuote.2 hQuote.1 hFeed rest

/- A text is read back from the inside of its literal. -/
theorem decode?_escapeFrom
    (afterQuestion : Bool)
    (text : Text) :
    decode? (escapeFrom afterQuestion text) = some text := by
  induction text generalizing afterQuestion with
  | nil => rw [escapeFrom, decode?]
  | cons c rest ih =>
      rw [escapeFrom, decode?_escape_append, ih]
      rfl

end Literal

end ShellToC
