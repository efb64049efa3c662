import ShellToC.Proofs.CToken
import ShellToC.Proofs.Decoding
import ShellToC.Proofs.QuotedRuns
import ShellToC.Proofs.TextParts

/-
  This file shows that a literal denotes its text wherever it
  stands in a program.

  Before C looks for tokens, it replaces trigraphs and joins
  the lines that end in a backslash.  Neither of the two
  starts with a quote, goes on with one, or stands in a
  literal, so both pass a literal by.

  Key definitions include:
    * `CText.replaceTrigraphs`
    * `CText.joinLines`

  Main declarations:
    * `CText.replaceTrigraphs_append_quote`
    * `CText.joinLines_append_quote`
    * `Literal.code_of_mem_quote`
    * `Literal.quote_denotes_text`
-/

namespace ShellToC

------------------------------------------------------------
-- Trigraphs and Lines
------------------------------------------------------------

namespace CText

/- The character that two question marks and the given one stand for. -/
def trigraph? : Char → Option Char
  | '=' => some '#'
  | '/' => some '\x5c'
  | '\x27' => some '^'
  | '(' => some '['
  | ')' => some ']'
  | '!' => some '|'
  | '<' => some '\x7b'
  | '>' => some '\x7d'
  | '-' => some '~'
  | _ => none

/- The text with every trigraph replaced, from the left. -/
def replaceTrigraphs : Text → Text
  | '?' :: '?' :: c :: rest =>
      match trigraph? c with
      | some d => d :: replaceTrigraphs rest
      | none => '?' :: replaceTrigraphs ('?' :: c :: rest)
  | c :: rest => c :: replaceTrigraphs rest
  | [] => []

/- The text with the lines joined that end in a backslash. -/
def joinLines : Text → Text
  | '\x5c' :: '\n' :: rest => joinLines rest
  | c :: rest => c :: joinLines rest
  | [] => []

/- A character that starts no trigraph is kept. -/
theorem replaceTrigraphs_cons
    {c : Char}
    {rest : Text}
    (h : ∀ d more, c = '?' → rest = '?' :: d :: more →
      trigraph? d = none) :
    replaceTrigraphs (c :: rest) =
      c :: replaceTrigraphs rest := by
  rw [replaceTrigraphs.eq_def]
  split
  next d more heq =>
    cases heq
    rw [h d more rfl rfl]
  next heq =>
    cases heq
    rfl
  next heq => cases heq

/- A quote belongs to no trigraph. -/
theorem replaceTrigraphs_append_quote
    (text rest : Text) :
    replaceTrigraphs (text ++ '\x22' :: rest) =
      replaceTrigraphs text ++ '\x22' :: replaceTrigraphs rest := by
  fun_induction replaceTrigraphs text with
  | case1 c text d hd ih => simp [replaceTrigraphs, hd, ih]
  | case2 c text hd ih =>
      have hKept : replaceTrigraphs
          ('?' :: ('?' :: c :: text ++ '\x22' :: rest)) =
            '?' :: replaceTrigraphs
              ('?' :: c :: text ++ '\x22' :: rest) := by
        refine replaceTrigraphs_cons fun e more _ hRest => ?_
        cases hRest
        exact hd
      exact hKept.trans (congrArg ('?' :: ·) ih)
  | case3 c text hHead ih =>
      rw [List.cons_append, List.cons_append, ← ih]
      refine replaceTrigraphs_cons fun d more hc hRest => ?_
      cases text with
      | nil => cases hRest
      | cons e text =>
          cases text with
          | nil =>
              cases hRest
              rfl
          | cons f text =>
              cases hRest
              exact (hHead _ text hc rfl).elim
  | case4 => exact replaceTrigraphs_cons fun _ _ hc => by cases hc

/- Without two question marks in a row there is no trigraph. -/
theorem replaceTrigraphs_of_not_occursIn
    {text : Text}
    (h : Text.occursIn ['?', '?'] text = false) :
    replaceTrigraphs text = text := by
  induction text with
  | nil => rfl
  | cons c rest ih =>
      rw [Text.occursIn, Bool.or_eq_false_iff] at h
      rw [replaceTrigraphs_cons, ih h.2]
      rintro d more rfl rfl
      cases h.1

/- A character that joins no lines is kept. -/
theorem joinLines_cons
    {c : Char}
    {rest : Text}
    (h : c = '\x5c' → rest.head? ≠ some '\n') :
    joinLines (c :: rest) = c :: joinLines rest := by
  rw [joinLines.eq_def]
  split
  next more heq =>
    cases heq
    exact (h rfl rfl).elim
  next heq =>
    cases heq
    rfl
  next heq => cases heq

/- A quote is neither the end nor the start of a line. -/
theorem joinLines_append_quote
    (text rest : Text) :
    joinLines (text ++ '\x22' :: rest) =
      joinLines text ++ '\x22' :: joinLines rest := by
  fun_induction joinLines text with
  | case1 text ih => simp [joinLines, ih]
  | case2 c text hHead ih =>
      rw [List.cons_append, List.cons_append, ← ih]
      refine joinLines_cons fun hc hRest => ?_
      cases text with
      | nil => cases hRest
      | cons d text =>
          cases hRest
          exact hHead text hc rfl
  | case3 => exact joinLines_cons fun hc => by cases hc

/- A text on one line has no lines to join. -/
theorem joinLines_of_not_mem
    {text : Text}
    (h : '\n' ∉ text) :
    joinLines text = text := by
  induction text with
  | nil => rfl
  | cons c rest ih =>
      simp only [List.mem_cons, not_or] at h
      rw [joinLines_cons, ih h.2]
      exact fun _ hHead => h.2 (List.mem_of_head? hHead)

end CText

------------------------------------------------------------
-- Characters of Literals
------------------------------------------------------------

namespace Literal

/- An octal digit is neither a control character nor a question mark. -/
theorem digitChar_printed
    (n : Nat) :
    isControl (Nat.digitChar (n % 8)) = false ∧
      Nat.digitChar (n % 8) ≠ '?' := by
  have hLess : n % 8 < 8 := Nat.mod_lt _ (by decide)
  generalize n % 8 = d at hLess
  revert d
  decide

/-
  A character is written as it is, behind a backslash, or in
  octal digits.  A question mark is never written as it is
  behind another one.
-/
theorem escape_cases
    (afterQuestion : Bool)
    (c : Char) :
    (escape afterQuestion c = [c] ∧ isControl c = false ∧
      c ≠ '\x22' ∧ c ≠ '\x5c' ∧ (afterQuestion = true → c ≠ '?')) ∨
    (∃ d, escape afterQuestion c = ['\x5c', d] ∧
      isControl d = false ∧ (d = '?' → c = '?')) ∨
    escape afterQuestion c = octal c.toNat := by
  unfold escape
  split
  next hc => exact Or.inr (Or.inl ⟨c, rfl, by
    rcases hc with rfl | rfl <;> decide, id⟩)
  split
  next => exact Or.inr (Or.inl ⟨'n', rfl, by decide, by simp⟩)
  split
  next => exact Or.inr (Or.inl ⟨'t', rfl, by decide, by simp⟩)
  split
  next => exact Or.inr (Or.inl ⟨'r', rfl, by decide, by simp⟩)
  split
  next hc =>
    exact Or.inr (Or.inl ⟨'?', rfl, by decide, fun _ => hc.1⟩)
  split
  next => exact Or.inr (Or.inr rfl)
  next hQuote _ _ _ hQuestion hControl =>
    rw [not_or] at hQuote
    exact Or.inl ⟨rfl, by simpa using hControl, hQuote.1, hQuote.2,
      fun hAfter hc => hQuestion ⟨hc, hAfter⟩⟩

/- No control character stands in a literal. -/
theorem not_isControl_of_mem_escapeFrom
    {afterQuestion : Bool}
    {text : Text}
    {d : Char}
    (h : d ∈ escapeFrom afterQuestion text) :
    isControl d = false := by
  induction text generalizing afterQuestion with
  | nil => cases h
  | cons c rest ih =>
      rw [escapeFrom, List.mem_append] at h
      rcases h with h | h
      · rcases escape_cases afterQuestion c with
          ⟨hEscape, hc, -⟩ | ⟨e, hEscape, he, -⟩ | hEscape
        · rw [hEscape, List.mem_singleton] at h
          rwa [h]
        · simp only [hEscape, List.mem_cons, List.not_mem_nil,
            or_false] at h
          rcases h with rfl | rfl
          · decide
          · exact he
        · simp only [hEscape, octal, List.mem_cons,
            List.not_mem_nil, or_false] at h
          rcases h with rfl | rfl | rfl | rfl
          · decide
          · exact (digitChar_printed _).1
          · exact (digitChar_printed _).1
          · exact (digitChar_printed _).1
      · exact ih h

/- Two question marks in a row stand at the start, or behind it. -/
theorem occursIn_questions_cons
    {c : Char}
    {rest : Text}
    (hHead : c = '?' → rest.head? ≠ some '?')
    (hRest : Text.occursIn ['?', '?'] rest = false) :
    Text.occursIn ['?', '?'] (c :: rest) = false := by
  rw [Text.occursIn, hRest, Bool.or_false, Bool.eq_false_iff, Ne,
    List.isPrefixOf_iff_prefix]
  rintro ⟨more, hMore⟩
  cases hMore
  exact hHead rfl rfl

/-
  A literal has no two question marks in a row.  What is
  written behind a question mark starts with another character.
-/
theorem questions_escapeFrom
    (afterQuestion : Bool)
    (text : Text) :
    (afterQuestion = true →
      (escapeFrom afterQuestion text).head? ≠ some '?') ∧
    Text.occursIn ['?', '?'] (escapeFrom afterQuestion text) =
      false := by
  induction text generalizing afterQuestion with
  | nil => simp [escapeFrom, Text.occursIn]
  | cons c rest ih =>
      have hNext : c = '?' →
          (escapeFrom (c == '?') rest).head? ≠ some '?' :=
        fun hc => (ih (c == '?')).1 (by simp [hc])
      have hRest := (ih (c == '?')).2
      rw [escapeFrom]
      rcases escape_cases afterQuestion c with
        ⟨hEscape, -, -, -, hc⟩ | ⟨d, hEscape, -, hd⟩ | hEscape
      · rw [hEscape]
        exact ⟨fun h => by simpa using hc h,
          occursIn_questions_cons hNext hRest⟩
      · rw [hEscape]
        refine ⟨by simp, occursIn_questions_cons (by simp) ?_⟩
        exact occursIn_questions_cons (fun h => hNext (hd h)) hRest
      · rw [hEscape, octal]
        have hDigit (n : Nat) {rest : Text}
            (hRest : Text.occursIn ['?', '?'] rest = false) :
            Text.occursIn ['?', '?']
              (Nat.digitChar (n % 8) :: rest) = false :=
          occursIn_questions_cons
            (fun h => ((digitChar_printed n).2 h).elim) hRest
        refine ⟨by simp, occursIn_questions_cons (by simp) ?_⟩
        exact hDigit _ (hDigit _ (hDigit _ hRest))

/- A character other than a quote and a backslash fits in quotes. -/
theorem fitsInDouble_cons
    {c : Char}
    (hQuote : c ≠ '\x22')
    (hSlash : c ≠ '\x5c')
    (rest : Text) :
    Word.fitsInDouble (c :: rest) = Word.fitsInDouble rest := by
  rw [Word.fitsInDouble.eq_def]
  split <;> simp_all

/- Every quote in a literal is escaped, and so is every backslash. -/
theorem fitsInDouble_escapeFrom
    (afterQuestion : Bool)
    (text : Text) :
    Word.fitsInDouble (escapeFrom afterQuestion text) = true := by
  induction text generalizing afterQuestion with
  | nil => rfl
  | cons c rest ih =>
      rw [escapeFrom, ← ih (c == '?')]
      rcases escape_cases afterQuestion c with
        ⟨hEscape, -, hQuote, hSlash, -⟩ | ⟨d, hEscape, -⟩ | hEscape
      · rw [hEscape]
        exact fitsInDouble_cons hQuote hSlash _
      · rw [hEscape]
        rfl
      · rw [hEscape, octal]
        have hMiddle := Lexeme.digitChar_octal (c.toNat / 8)
        have hLow := Lexeme.digitChar_octal c.toNat
        simp only [List.cons_append, List.nil_append,
          Word.fitsInDouble]
        rw [fitsInDouble_cons hMiddle.2 hMiddle.1,
          fitsInDouble_cons hLow.2 hLow.1]

------------------------------------------------------------
-- Literals in Programs
------------------------------------------------------------

/- The codes of the characters of a literal are no control codes. -/
theorem code_of_mem_quote
    {text : Text}
    {c : Char}
    (h : c ∈ quote text) :
    0x20 ≤ c.toNat ∧ c.toNat ≠ 0x7F := by
  have hControl : isControl c = false := by
    simp only [quote, List.mem_append, List.mem_cons,
      List.not_mem_nil, or_false] at h
    rcases h with (rfl | hInside) | rfl
    · decide
    · exact not_isControl_of_mem_escapeFrom hInside
    · decide
  simpa [isControl] using hControl

/- The quotes of a literal bring no question marks together. -/
theorem occursIn_questions_quote
    (text : Text) :
    Text.occursIn ['?', '?'] (quote text) = false := by
  rw [quote, List.cons_append, Text.occursIn_cons (by decide),
    Text.occursIn_concat (by simp) (by decide)]
  exact (questions_escapeFrom false text).2

/- Texts are told apart by their literals. -/
theorem quote_inj
    {a b : Text} :
    quote a = quote b ↔ a = b := by
  refine ⟨fun h => ?_, fun h => by rw [h]⟩
  have hInside : escapeFrom false a = escapeFrom false b :=
    List.append_inj_left' (List.cons.inj h).2 rfl
  have hText := decode?_escapeFrom false a
  rw [hInside, decode?_escapeFrom] at hText
  exact (Option.some.inj hText).symm

/- The phases before tokens are read pass a literal by. -/
theorem replaceTrigraphs_quote
    (before text after : Text) :
    CText.replaceTrigraphs (before ++ quote text ++ after) =
      CText.replaceTrigraphs before ++ quote text ++
        CText.replaceTrigraphs after := by
  have hInside := CText.replaceTrigraphs_of_not_occursIn
    (questions_escapeFrom false text).2
  simp only [quote, List.append_assoc, List.cons_append,
    List.nil_append]
  rw [CText.replaceTrigraphs_append_quote,
    CText.replaceTrigraphs_append_quote, hInside]

theorem joinLines_quote
    (before text after : Text) :
    CText.joinLines (before ++ quote text ++ after) =
      CText.joinLines before ++ quote text ++
        CText.joinLines after := by
  have hFeed : '\n' ∉ escapeFrom false text := fun hMem => by
    have hControl := not_isControl_of_mem_escapeFrom hMem
    exact absurd hControl (by decide)
  have hInside := CText.joinLines_of_not_mem hFeed
  simp only [quote, List.append_assoc, List.cons_append,
    List.nil_append]
  rw [CText.joinLines_append_quote, CText.joinLines_append_quote,
    hInside]

/-
  The literal of a text is one token of C, and what stands
  between its quotes denotes the text.  It has no quote that
  is not escaped, no control character, and no two question
  marks in a row.  Replacing trigraphs and joining lines
  leave it as it is, whatever stands around it, and texts
  with the same literal are the same.
-/
theorem quote_denotes_text
    (text : Text) :
    (∃ inside,
      quote text = '\x22' :: (inside ++ ['\x22']) ∧
      CToken.ofText (quote text) = [.literal '\x22' inside] ∧
      Word.fitsInDouble inside = true ∧
      decode? inside = some text) ∧
    (∀ c ∈ quote text, 0x20 ≤ c.toNat ∧ c.toNat ≠ 0x7F) ∧
    Text.occursIn "??" (quote text) = false ∧
    (∀ before after,
      CText.replaceTrigraphs (before ++ quote text ++ after) =
        CText.replaceTrigraphs before ++ quote text ++
          CText.replaceTrigraphs after ∧
      CText.joinLines (before ++ quote text ++ after) =
        CText.joinLines before ++ quote text ++
          CText.joinLines after) ∧
    ∀ other, quote other = quote text ↔ other = text := by
  refine ⟨⟨escapeFrom false text, rfl, ?_, ?_, ?_⟩, ?_, ?_, ?_, ?_⟩
  · exact (CToken.reads_quote text).ofText_eq
  · exact fitsInDouble_escapeFrom false text
  · exact decode?_escapeFrom false text
  · exact fun c hc => code_of_mem_quote hc
  · rw [Text.ofString_ofList]
    exact occursIn_questions_quote text
  · exact fun before after =>
      ⟨replaceTrigraphs_quote before text after,
        joinLines_quote before text after⟩
  · exact fun other => quote_inj

/- Escapes of all lengths, each before what could be read on. -/
example :
    quote "\x011??=\x5cn\x22?" =
      Text.ofString "\x22\\0011?\\?=\\\\n\\\x22?\x22" := by
  repeat rw [Text.ofString_ofList]
  decide +kernel

end Literal

end ShellToC
