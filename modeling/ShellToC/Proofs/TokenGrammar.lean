import ShellToC.Proofs.ArithGrammar

/-
  This file says which texts have arithmetic tokens.

  Such a text is a sequence of lexemes, each of which is as
  long as it can be.  Only name characters make a lexeme
  longer, so where a lexeme ends depends on no more than the
  next character.  A name in braces whose closing brace is
  missing is read at the end of a text as if the brace were
  there.

  Key definitions include:
    * `ArithLexeme`
    * `ArithLexeme.Leads`
    * `ArithLexeme.Lexes`

  Main declarations:
    * `ArithLexeme.leads_append_iff`
    * `Token.ofText_lexeme_append`
    * `Token.exists_takes_of_read`
    * `Token.ofText_eq_ok_iff_lexes`
-/

namespace ShellToC

------------------------------------------------------------
-- Lexemes
------------------------------------------------------------

/- What the text of an arithmetic expression is made of. -/
inductive ArithLexeme where
  | blank (c : Char)
  /- A name by itself. -/
  | plain (name : Text)
  /- A name behind a dollar sign. -/
  | reference (name : Text)
  /- A name in braces behind a dollar sign. -/
  | braced (name : Text)
  | status
  | backgroundPid
  | numeral (digits : Text)
  | operator (op : Operator)
  | leftParen
  | rightParen
  deriving DecidableEq, Repr

namespace ArithLexeme

/- The text of a lexeme. -/
def text : ArithLexeme → Text
  | .blank c => [c]
  | .plain name => name
  | .reference name => '$' :: name
  | .braced name => '$' :: '\x7b' :: (name ++ ['\x7d'])
  | .status => ['$', '?']
  | .backgroundPid => ['$', '!']
  | .numeral digits => digits
  | .operator op => [op.symbol]
  | .leftParen => ['(']
  | .rightParen => [')']

/- The token that a lexeme stands for, unless it is a blank. -/
def token? : ArithLexeme → Option Token
  | .blank _ => none
  | .plain name => some (.var name)
  | .reference name => some (.var name)
  | .braced name => some (.var name)
  | .status => some .status
  | .backgroundPid => some .backgroundPid
  | .numeral digits => some (.number digits)
  | .operator op => some (.operator op)
  | .leftParen => some .leftParen
  | .rightParen => some .rightParen

/- Blanks are blank, names are names, and numerals start with a digit. -/
def isWellFormed : ArithLexeme → Bool
  | .blank c => Text.isBlank c
  | .plain name => Text.isName name
  | .reference name => Text.isName name
  | .braced name => Text.isName name
  | .numeral digits =>
      digits.head?.any Char.isDigit &&
        digits.all Text.isNameChar
  | _ => true

/- The lexeme is the longest one that the text starts with. -/
structure Leads
    (l : ArithLexeme)
    (body : Text) : Prop where
  wellFormed : l.isWellFormed = true
  starts : l.text <+: body
  longest : ∀ other : ArithLexeme, other.isWellFormed = true →
    other.text <+: body → other.text.length ≤ l.text.length

/- The text is these lexemes side by side, each as long as it can be. -/
inductive Lexes : Text → List ArithLexeme → Prop where
  | nil : Lexes [] []
  | cons {l : ArithLexeme} {rest : Text} {ls : List ArithLexeme}
      (hLeads : l.Leads (l.text ++ rest))
      (hRest : Lexes rest ls) :
      Lexes (l.text ++ rest) (l :: ls)

/- No star stands right behind a star. -/
def StarsApart
    (ls : List ArithLexeme) : Prop :=
  ¬ [.operator .times, .operator .times] <:+: ls

------------------------------------------------------------
-- Ends of Lexemes
------------------------------------------------------------

/- Whether a lexeme ends in a name or a numeral. -/
def isWord : ArithLexeme → Bool
  | .plain _ => true
  | .reference _ => true
  | .numeral _ => true
  | _ => false

/- A text that starts with no name character stands behind a word. -/
def StopsBefore
    (l : ArithLexeme)
    (rest : Text) : Prop :=
  l.isWord = true → rest.head?.all (! Text.isNameChar ·) = true

theorem text_ne_nil
    {l : ArithLexeme}
    (h : l.isWellFormed = true) :
    l.text ≠ [] := by
  cases l with
  | plain name =>
      cases name with
      | nil => contradiction
      | cons c rest => exact List.cons_ne_nil c rest
  | numeral digits =>
      cases digits with
      | nil => contradiction
      | cons c rest => exact List.cons_ne_nil c rest
  | _ => simp [text]

/- What consists of name characters is a name or a numeral. -/
theorem isWord_of_all_isNameChar
    {l : ArithLexeme}
    (h : l.isWellFormed = true)
    (hText : l.text.all Text.isNameChar = true) :
    l.isWord = true := by
  cases l with
  | plain name => rfl
  | reference name => rfl
  | numeral digits => rfl
  | blank c =>
      have hc := Lexeme.isNameChar_of_isBlank h
      simp [text, hc] at hText
  | operator op => cases op <;> exact absurd hText (by decide)
  | braced name =>
      have hDollar : Text.isNameChar '$' = false := by decide
      simp [text, hDollar] at hText
  | _ => exact absurd hText (by decide)

/- What stands behind the dollar sign that a lexeme starts with. -/
def IsBehindDollar
    (l : ArithLexeme)
    (rest : Text) : Prop :=
  (l.isWord = true ∧ Text.isName rest = true) ∨
    (∃ name, Text.isName name = true ∧
      rest = '\x7b' :: (name ++ ['\x7d'])) ∨
    rest = ['?'] ∨ rest = ['!']

theorem isBehindDollar_of_text_eq
    {l : ArithLexeme}
    (h : l.isWellFormed = true)
    {rest : Text}
    (hText : l.text = '$' :: rest) :
    l.IsBehindDollar rest := by
  have hChar : ∀ {w : Text}, w = '$' :: rest →
      w.all Text.isNameChar ≠ true := by
    rintro _ rfl hAll
    simp only [List.all_cons, Bool.and_eq_true] at hAll
    exact absurd hAll.1 (by decide)
  cases l with
  | reference name =>
      cases hText
      exact .inl ⟨rfl, h⟩
  | braced name =>
      cases hText
      exact .inr (.inl ⟨name, h, rfl⟩)
  | status =>
      cases hText
      exact .inr (.inr (.inl rfl))
  | backgroundPid =>
      cases hText
      exact .inr (.inr (.inr rfl))
  | plain name =>
      exact absurd (Text.all_isNameChar_of_isName h) (hChar hText)
  | numeral digits =>
      rw [isWellFormed, Bool.and_eq_true] at h
      exact absurd h.2 (hChar hText)
  | blank c =>
      cases hText
      exact absurd h (by decide)
  | operator op => cases op <;> simp [text, Operator.symbol] at hText
  | _ => simp [text] at hText

/- A lexeme goes as far behind the dollar sign as the text it starts. -/
theorem exists_isBehindDollar
    {l : ArithLexeme}
    (h : l.isWellFormed = true)
    {c : Char}
    {tail rest : Text}
    (hTail : '$' :: tail = l.text ++ c :: rest) :
    ∃ front, l.IsBehindDollar front ∧ tail = front ++ c :: rest := by
  cases hText : l.text with
  | nil => exact absurd hText (text_ne_nil h)
  | cons d front =>
      rw [hText, List.cons_append, List.cons.injEq] at hTail
      obtain ⟨rfl, hTail⟩ := hTail
      exact ⟨front, isBehindDollar_of_text_eq h hText, hTail⟩

/- Behind an opening brace there is a name and a closing brace. -/
theorem IsBehindDollar.exists_braced
    {l : ArithLexeme}
    {front rest tail : Text}
    (h : l.IsBehindDollar front)
    (hTail : '\x7b' :: tail = front ++ rest) :
    ∃ name, Text.isName name = true ∧
      front = '\x7b' :: (name ++ ['\x7d']) := by
  rcases h with ⟨_, hName⟩ | hBraced | rfl | rfl
  · cases front with
    | nil => contradiction
    | cons c front =>
        rw [List.cons_append, List.cons.injEq] at hTail
        obtain ⟨rfl, _⟩ := hTail
        simp only [Text.isName, Bool.and_eq_true] at hName
        exact absurd hName.1 (by decide)
  · exact hBraced
  · cases hTail
  · cases hTail

/- A name holds no brace. -/
theorem all_ne_brace_of_isName
    {name : Text}
    (h : Text.isName name = true) :
    name.all (· != '\x7d') = true := by
  rw [List.all_eq_true]
  intro c hc
  rw [bne_iff_ne]
  rintro rfl
  have hAll := Text.all_isNameChar_of_isName h
  exact absurd (List.all_eq_true.mp hAll _ hc) (by decide)

/- Only words become longer, and only by name characters. -/
theorem isWord_of_text_eq_append
    {l longer : ArithLexeme}
    (h : l.isWellFormed = true)
    (hLonger : longer.isWellFormed = true)
    {c : Char}
    {rest : Text}
    (hText : longer.text = l.text ++ c :: rest) :
    l.isWord = true ∧ Text.isNameChar c = true := by
  have hOne : ∀ d, [d] ≠ l.text ++ c :: rest := by
    intro d hEq
    have hNil : l.text = [] := by
      have hLength := congrArg List.length hEq
      simp only [List.length_append, List.length_cons,
        List.length_nil] at hLength
      exact List.length_eq_zero_iff.mp (by omega)
    exact text_ne_nil h hNil
  have hWord : longer.text.all Text.isNameChar = true →
      l.isWord = true ∧ Text.isNameChar c = true := by
    intro hAll
    simp only [hText, List.all_append, List.all_cons,
      Bool.and_eq_true] at hAll
    exact ⟨isWord_of_all_isNameChar h hAll.1, hAll.2.1⟩
  cases longer with
  | blank d => exact absurd hText (hOne d)
  | operator op => exact absurd hText (hOne op.symbol)
  | leftParen => exact absurd hText (hOne '(')
  | rightParen => exact absurd hText (hOne ')')
  | plain name => exact hWord (Text.all_isNameChar_of_isName hLonger)
  | numeral digits =>
      rw [isWellFormed, Bool.and_eq_true] at hLonger
      exact hWord hLonger.2
  | reference name =>
      rcases exists_isBehindDollar h hText with ⟨front, hFront, rfl⟩
      have hAll := Text.all_isNameChar_of_isName hLonger
      simp only [List.all_append, List.all_cons,
        Bool.and_eq_true] at hAll
      rcases hFront with ⟨hIsWord, _⟩ | ⟨_, _, rfl⟩ | rfl | rfl
      · exact ⟨hIsWord, hAll.2.1⟩
      · simp only [List.all_cons, Bool.and_eq_true] at hAll
        exact absurd hAll.1.1 (by decide)
      · exact absurd hAll.1 (by decide)
      · exact absurd hAll.1 (by decide)
  | braced name =>
      rcases exists_isBehindDollar h hText with ⟨front, hFront, hTail⟩
      rcases hFront.exists_braced hTail with ⟨other, hOther, rfl⟩
      -- Both names end at the first closing brace.
      have hName : (name ++ ['\x7d']).dropWhile (· != '\x7d') =
          ['\x7d'] :=
        (Text.span_append (all_ne_brace_of_isName hLonger) rfl).2
      have hOther : (other ++ '\x7d' :: c :: rest).dropWhile
          (· != '\x7d') = '\x7d' :: c :: rest :=
        (Text.span_append (all_ne_brace_of_isName hOther) rfl).2
      simp only [List.cons_append, List.cons.injEq, true_and,
        List.append_assoc, List.nil_append] at hTail
      rw [← hTail, hName] at hOther
      simp at hOther
  | status =>
      rcases exists_isBehindDollar h hText with ⟨front, hFront, hTail⟩
      cases front <;> simp_all [IsBehindDollar, Text.isName]
  | backgroundPid =>
      rcases exists_isBehindDollar h hText with ⟨front, hFront, hTail⟩
      cases front <;> simp_all [IsBehindDollar, Text.isName]

/- A lexeme with one more name character at its end. -/
theorem exists_longer
    {l : ArithLexeme}
    (h : l.isWellFormed = true)
    (hWord : l.isWord = true)
    {c : Char}
    (hc : Text.isNameChar c = true) :
    ∃ longer : ArithLexeme, longer.isWellFormed = true ∧
      longer.text = l.text ++ [c] := by
  have hName : ∀ {name : Text}, Text.isName name = true →
      Text.isName (name ++ [c]) = true := by
    intro name hName
    cases name with
    | nil => contradiction
    | cons d rest => simpa [Text.isName, hc] using hName
  cases l with
  | plain name => exact ⟨.plain (name ++ [c]), hName h, rfl⟩
  | reference name => exact ⟨.reference (name ++ [c]), hName h, rfl⟩
  | numeral digits =>
      refine ⟨.numeral (digits ++ [c]), ?_, rfl⟩
      cases digits with
      | nil => contradiction
      | cons d rest => simpa [isWellFormed, hc] using h
  | _ => contradiction

/- A lexeme is the longest if nothing that goes on with it follows. -/
theorem leads_append_iff
    {l : ArithLexeme}
    {rest : Text} :
    l.Leads (l.text ++ rest) ↔
      l.isWellFormed = true ∧ l.StopsBefore rest := by
  constructor
  · intro hLeads
    refine ⟨hLeads.wellFormed, fun hWord => ?_⟩
    rw [Option.all_eq_true]
    intro c hHead
    cases hc : Text.isNameChar c with
    | false => rfl
    | true =>
        rcases exists_longer hLeads.wellFormed hWord hc with
          ⟨longer, hLonger, hText⟩
        rcases List.head?_eq_some_iff.mp hHead with ⟨after, rfl⟩
        have hStarts : longer.text <+: l.text ++ c :: after :=
          ⟨after, by rw [hText, List.append_assoc]; rfl⟩
        have hLength := hLeads.longest longer hLonger hStarts
        rw [hText, List.length_append, List.length_singleton] at hLength
        omega
  · rintro ⟨h, hStops⟩
    refine ⟨h, List.prefix_append _ _, fun other hOther hStarts => ?_⟩
    apply Nat.le_of_not_lt
    intro hLonger
    have hPrefix := List.prefix_of_prefix_length_le
      (List.prefix_append l.text rest) hStarts (by omega)
    obtain ⟨more, hMore⟩ := hPrefix
    cases more with
    | nil =>
        rw [← hMore, List.append_nil] at hLonger
        exact absurd hLonger (Nat.lt_irrefl _)
    | cons c more =>
        have hWord := isWord_of_text_eq_append h hOther hMore.symm
        obtain ⟨after, hAfter⟩ := hStarts
        rw [← hMore, List.append_assoc, List.append_cancel_left_eq]
          at hAfter
        have hHead := hStops hWord.1
        simp [← hAfter, hWord.2] at hHead

end ArithLexeme

------------------------------------------------------------
-- Reading Lexemes
------------------------------------------------------------

namespace Token

/- One token or blank is read, and then the rest of the text. -/
theorem ofText_cons
    {c : Char}
    {rest after : Text}
    {token : Option Token}
    (h : read c rest = .ok (token, after)) :
    ofText (c :: rest) =
      (ofText after).map (token.toList ++ ·) := by
  rw [ofText]
  split <;> simp_all

/- A character of a word starts neither a blank nor a reference. -/
theorem isBlank_of_isNameChar
    {c : Char}
    (h : Text.isNameChar c = true) :
    Text.isBlank c = false ∧ c ≠ '$' := by
  constructor
  · cases hc : Text.isBlank c with
    | false => rfl
    | true => simp [Lexeme.isNameChar_of_isBlank hc] at h
  · rintro rfl
    exact absurd h (by decide)

/- The name behind a dollar sign is read to its end. -/
theorem readReference_name
    {name rest : Text}
    (h : Text.isName name = true)
    (hRest : rest.head?.all (! Text.isNameChar ·) = true) :
    readReference (name ++ rest) = .ok (some (.var name), rest) := by
  have hAll := Text.all_isNameChar_of_isName h
  have hSpan := Text.span_append hAll hRest
  have hHead : (name ++ rest).head?.any Text.isNameStart = true := by
    cases name with
    | nil => contradiction
    | cons c w =>
        rw [Text.isName, Bool.and_eq_true] at h
        exact h.1
  have hOther : ∀ {c : Char} {w : Text}, name ++ rest = c :: w →
      Text.isNameStart c = true := by
    intro c w hEq
    simpa [hEq] using hHead
  unfold readReference
  split
  · rename_i hEq
    exact absurd (hOther hEq) (by decide)
  · rename_i hEq
    exact absurd (hOther hEq) (by decide)
  · rename_i hEq
    exact absurd (hOther hEq) (by decide)
  · rw [hHead, hSpan.1, hSpan.2]
    rfl

/- The name in braces is read up to the brace. -/
theorem readBraced_name
    {name : Text}
    (h : Text.isName name = true)
    {tail : Text}
    (hTail : tail.head?.all (! · != '\x7d') = true) :
    readBraced (name ++ tail) =
      .ok (some (.var name), tail.tail) := by
  have hSpan := Text.span_append
    (ArithLexeme.all_ne_brace_of_isName h) hTail
  rw [readBraced, hSpan.1, hSpan.2, h]
  rfl

/- The longest lexeme is read, unless it is the first of two stars. -/
theorem read_lexeme
    {l : ArithLexeme}
    {rest : Text}
    (hLeads : l.Leads (l.text ++ rest))
    (hStar : l = .operator .times → rest.head? ≠ some '*') :
    ∃ c tail, l.text ++ rest = c :: tail ∧
      read c tail = .ok (l.token?, rest) := by
  rcases ArithLexeme.leads_append_iff.mp hLeads with ⟨h, hStops⟩
  cases l with
  | blank c =>
      have hc : Text.isBlank c = true := h
      exact ⟨c, rest, rfl, by rw [read, hc]; rfl⟩
  | plain name =>
      cases name with
      | nil => contradiction
      | cons c w =>
          rw [ArithLexeme.isWellFormed, Text.isName,
            Bool.and_eq_true] at h
          have hc := isBlank_of_isNameChar
            (Text.isNameChar_of_isNameStart h.1)
          have hSpan := Text.span_append h.2 (hStops rfl)
          refine ⟨c, w ++ rest, rfl, ?_⟩
          simp [read, hc.1, hc.2, h.1, hSpan.1, hSpan.2,
            ArithLexeme.token?]
  | reference name =>
      refine ⟨'$', name ++ rest, rfl, ?_⟩
      exact readReference_name h (hStops rfl)
  | braced name =>
      refine ⟨'$', '\x7b' :: (name ++ ('\x7d' :: rest)), ?_, ?_⟩
      · simp [ArithLexeme.text]
      · exact readBraced_name h rfl
  | status => exact ⟨'$', '?' :: rest, rfl, rfl⟩
  | backgroundPid => exact ⟨'$', '!' :: rest, rfl, rfl⟩
  | numeral digits =>
      cases digits with
      | nil => contradiction
      | cons c w =>
          simp only [ArithLexeme.isWellFormed, List.head?_cons,
            Option.any_some, List.all_cons, Bool.and_eq_true] at h
          have hc := isBlank_of_isNameChar h.2.1
          have hStart := CToken.isNameStart_of_isDigit h.1
          have hSpan := Text.span_append h.2.2 (hStops rfl)
          refine ⟨c, w ++ rest, rfl, ?_⟩
          simp [read, hc.1, hc.2, h.1, hStart, hSpan.1, hSpan.2,
            ArithLexeme.token?]
  | operator op =>
      refine ⟨op.symbol, rest, rfl, ?_⟩
      cases op with
      | times =>
          have hOp : Operator.ofChar? '*' = some .times := by decide
          have hNe := hStar rfl
          change readOperator '*' rest = _
          simp [readOperator, hOp, hNe, ArithLexeme.token?]
      | _ => rfl
  | leftParen => exact ⟨'(', rest, rfl, rfl⟩
  | rightParen => exact ⟨')', rest, rfl, rfl⟩

theorem ofText_lexeme_append
    {l : ArithLexeme}
    {rest : Text}
    (hLeads : l.Leads (l.text ++ rest))
    (hStar : l = .operator .times → rest.head? ≠ some '*') :
    ofText (l.text ++ rest) =
      (ofText rest).map (l.token?.toList ++ ·) := by
  rcases read_lexeme hLeads hStar with ⟨c, tail, hText, hRead⟩
  rw [hText, ofText_cons hRead]

/- Reading takes the lexeme off the text. -/
structure Takes
    (l : ArithLexeme)
    (body after : Text)
    (token : Option Token) : Prop where
  append_eq : body = l.text ++ after
  leads : l.Leads (l.text ++ after)
  starApart : l = .operator .times → after.head? ≠ some '*'
  token_eq : l.token? = token

/- A word is read to its end. -/
theorem takes_word
    (l : ArithLexeme)
    (h : l.isWellFormed = true)
    (hWord : l.isWord = true)
    {body rest : Text}
    (hBody : body =
      l.text ++ rest.dropWhile Text.isNameChar) :
    Takes l body (rest.dropWhile Text.isNameChar) l.token? where
  append_eq := hBody
  leads := by
    refine ArithLexeme.leads_append_iff.mpr ⟨h, fun _ => ?_⟩
    have hHead := List.head?_dropWhile_not Text.isNameChar rest
    cases hc : (rest.dropWhile Text.isNameChar).head? <;>
      simp_all
  starApart := by
    rintro rfl
    contradiction
  token_eq := rfl

/- A lexeme with a fixed end is read whatever follows. -/
theorem takes_closed
    (l : ArithLexeme)
    (h : l.isWellFormed = true)
    (hWord : l.isWord = false)
    {body after : Text}
    (hBody : body = l.text ++ after)
    (hStar : l = .operator .times → after.head? ≠ some '*') :
    Takes l body after l.token? where
  append_eq := hBody
  leads := ArithLexeme.leads_append_iff.mpr
    ⟨h, fun hIsWord => by simp [hWord] at hIsWord⟩
  starApart := hStar
  token_eq := rfl

/- What is read of a name in braces, whose brace may be missing. -/
theorem exists_takes_of_readBraced
    {rest after : Text}
    {token : Option Token}
    (h : readBraced rest = .ok (token, after)) :
    ∃ name, Text.isName name = true ∧
      (Takes (.braced name) ('$' :: '\x7b' :: rest) after token ∨
        rest = name ∧ token = some (.var name) ∧ after = []) := by
  have hText := List.takeWhile_append_dropWhile
    (p := (· != '\x7d')) (l := rest)
  simp only [readBraced] at h
  split at h
  · rename_i hName
    simp only [Except.ok.injEq, Prod.mk.injEq] at h
    obtain ⟨rfl, rfl⟩ := h
    refine ⟨_, hName, ?_⟩
    cases hDrop : rest.dropWhile (· != '\x7d') with
    | nil =>
        rw [hDrop, List.append_nil] at hText
        exact .inr ⟨hText.symm, rfl, rfl⟩
    | cons d tail =>
        have hd := List.head?_dropWhile_not (· != '\x7d') rest
        simp only [hDrop, List.head?_cons,
          bne_eq_false_iff_eq] at hd
        rw [hDrop, hd] at hText
        refine .inl (takes_closed (.braced _) hName rfl ?_ (by simp))
        simp [ArithLexeme.text, hText]
  · contradiction

theorem exists_takes_of_readReference
    {rest after : Text}
    {token : Option Token}
    (h : readReference rest = .ok (token, after)) :
    (∃ l, Takes l ('$' :: rest) after token) ∨
      ∃ name, Text.isName name = true ∧ rest = '\x7b' :: name ∧
        token = some (.var name) ∧ after = [] := by
  unfold readReference at h
  split at h
  · rcases exists_takes_of_readBraced h with
      ⟨name, hName, hTakes | ⟨rfl, hToken, hAfter⟩⟩
    · exact .inl ⟨_, hTakes⟩
    · exact .inr ⟨_, hName, rfl, hToken, hAfter⟩
  · cases h
    exact .inl ⟨_, takes_closed .status rfl rfl rfl (by simp)⟩
  · cases h
    exact .inl ⟨_, takes_closed .backgroundPid rfl rfl rfl (by simp)⟩
  · split at h
    · rename_i hStart
      cases h
      cases rest with
      | nil => contradiction
      | cons c w =>
          have hc : Text.isNameStart c = true := by
            simpa using hStart
          have hName := isName_takeWhile hc w
          have hChar := Text.isNameChar_of_isNameStart hc
          rw [List.takeWhile_cons_of_pos hChar,
            List.dropWhile_cons_of_pos hChar]
          refine .inl ⟨_, takes_word
            (.reference (c :: w.takeWhile Text.isNameChar))
            hName rfl ?_⟩
          simp [ArithLexeme.text]
    · contradiction

/- One step of reading takes a lexeme or a name without its brace. -/
theorem exists_takes_of_read
    {c : Char}
    {rest after : Text}
    {token : Option Token}
    (h : read c rest = .ok (token, after)) :
    (∃ l, Takes l (c :: rest) after token) ∨
      ∃ name, Text.isName name = true ∧
        c :: rest = '$' :: '\x7b' :: name ∧
        token = some (.var name) ∧ after = [] := by
  unfold read at h
  split at h
  next hBlank =>
    cases h
    exact .inl ⟨_, takes_closed (.blank c) hBlank rfl rfl (by simp)⟩
  split at h
  next hDollar =>
    subst hDollar
    rcases exists_takes_of_readReference h with
      hTakes | ⟨name, hName, rfl, hToken, hAfter⟩
    · exact .inl hTakes
    · exact .inr ⟨name, hName, rfl, hToken, hAfter⟩
  split at h
  next hStart =>
    cases h
    refine .inl ⟨_, takes_word
      (.plain (c :: rest.takeWhile Text.isNameChar))
      (isName_takeWhile hStart rest) rfl ?_⟩
    simp [ArithLexeme.text]
  split at h
  next hDigit =>
    cases h
    have hChar : Text.isNameChar c = true := by
      simp [Text.isNameChar, Char.isAlphanum, hDigit]
    refine .inl ⟨_, takes_word
      (.numeral (c :: rest.takeWhile Text.isNameChar)) ?_ rfl ?_⟩
    · simp [ArithLexeme.isWellFormed, hDigit, hChar,
        List.all_takeWhile]
    · simp [ArithLexeme.text]
  split at h
  next hParen =>
    cases h
    subst hParen
    exact .inl ⟨_, takes_closed .leftParen rfl rfl rfl (by simp)⟩
  split at h
  next hParen =>
    cases h
    subst hParen
    exact .inl ⟨_, takes_closed .rightParen rfl rfl rfl (by simp)⟩
  next =>
    unfold readOperator at h
    split at h
    next op hOp =>
      have hSymbol : op.symbol = c := by
        simpa using List.find?_some hOp
      subst hSymbol
      split at h
      · contradiction
      · rename_i hStars
        cases h
        refine .inl ⟨_, takes_closed (.operator op) rfl rfl rfl ?_⟩
        intro hTimes hHead
        cases hTimes
        exact hStars ⟨rfl, hHead⟩
    · contradiction

end Token

------------------------------------------------------------
-- Sequences of Lexemes
------------------------------------------------------------

namespace ArithLexeme

theorem starsApart_nil : StarsApart [] := by
  simp [StarsApart]

/- The first two lexemes tell whether stars meet at the start. -/
theorem starsApart_cons
    {l : ArithLexeme}
    {ls : List ArithLexeme} :
    StarsApart (l :: ls) ↔
      (l = .operator .times →
        ls.head? ≠ some (.operator .times)) ∧ StarsApart ls := by
  rw [StarsApart, List.infix_cons_iff, not_or]
  refine and_congr ?_ Iff.rfl
  cases ls with
  | nil => simp
  | cons next ls =>
      simp [List.cons_prefix_cons, eq_comm]

/- Only a star starts with a star. -/
theorem eq_times_of_head?_text
    {l : ArithLexeme}
    (h : l.isWellFormed = true)
    (hHead : l.text.head? = some '*') :
    l = .operator .times := by
  cases l with
  | operator op =>
      cases op with
      | times => rfl
      | _ => contradiction
  | blank c =>
      cases hHead
      exact absurd h (by decide)
  | plain name =>
      cases name with
      | nil => contradiction
      | cons c w =>
          cases hHead
          rw [isWellFormed, Text.isName, Bool.and_eq_true] at h
          exact absurd h.1 (by decide)
  | numeral digits =>
      have hHead' : digits.head? = some '*' := hHead
      rw [isWellFormed, hHead', Bool.and_eq_true] at h
      exact absurd h.1 (by decide)
  | _ => simp [text] at hHead

/- The text of lexemes starts with a star if the first of them is one. -/
theorem Lexes.head?_eq_star_iff
    {body : Text}
    {ls : List ArithLexeme}
    (h : Lexes body ls) :
    body.head? = some '*' ↔ ls.head? = some (.operator .times) := by
  cases h with
  | nil => simp
  | @cons l rest ls hLeads hRest =>
      have hHead : (l.text ++ rest).head? = l.text.head? := by
        cases hText : l.text with
        | nil => exact absurd hText (text_ne_nil hLeads.wellFormed)
        | cons c w => rfl
      rw [hHead, List.head?_cons, Option.some.injEq]
      constructor
      · exact eq_times_of_head?_text hLeads.wellFormed
      · rintro rfl
        rfl

/- Only a name in braces ends in a closing brace. -/
theorem exists_braced_of_text_eq
    {l : ArithLexeme}
    (h : l.isWellFormed = true)
    {front : Text}
    (hText : l.text = front ++ ['\x7d']) :
    ∃ name, Text.isName name = true ∧ l = .braced name ∧
      front = '$' :: '\x7b' :: name := by
  have hMem : '\x7d' ∈ l.text := by simp [hText]
  have hWord : ∀ {w : Text}, w.all Text.isNameChar = true →
      '\x7d' ∉ w := by
    intro w hAll hIn
    exact absurd (List.all_eq_true.mp hAll _ hIn) (by decide)
  cases l with
  | braced name =>
      refine ⟨name, h, rfl, ?_⟩
      rw [text, ← List.cons_append, ← List.cons_append] at hText
      exact (List.append_cancel_right hText).symm
  | plain name =>
      exact absurd hMem (hWord (Text.all_isNameChar_of_isName h))
  | reference name =>
      rcases List.mem_cons.mp hMem with hEq | hIn
      · contradiction
      · exact absurd hIn (hWord (Text.all_isNameChar_of_isName h))
  | numeral digits =>
      rw [isWellFormed, Bool.and_eq_true] at h
      exact absurd hMem (hWord h.2)
  | blank c =>
      cases List.mem_singleton.mp hMem
      exact absurd h (by decide)
  | operator op => cases op <;> simp [text, Operator.symbol] at hMem
  | _ => simp [text] at hMem

/- No lexeme starts a name in braces that lacks its closing brace. -/
theorem not_lexes_unclosed
    {name : Text}
    (h : Text.isName name = true)
    {ls : List ArithLexeme} :
    ¬ Lexes ('$' :: '\x7b' :: name) ls := by
  intro hLexes
  generalize hBody : '$' :: '\x7b' :: name = body at hLexes
  cases hLexes with
  | nil => contradiction
  | @cons l rest ls hLeads hRest =>
      cases hText : l.text with
      | nil => exact absurd hText (text_ne_nil hLeads.wellFormed)
      | cons d front =>
          rw [hText, List.cons_append, List.cons.injEq] at hBody
          obtain ⟨rfl, hFront⟩ := hBody
          have hBehind :=
            isBehindDollar_of_text_eq hLeads.wellFormed hText
          rcases hBehind.exists_braced hFront with ⟨other, _, rfl⟩
          cases hFront
          have hBrace := List.all_eq_true.mp
            (all_ne_brace_of_isName h) '\x7d' (by simp)
          simp at hBrace

/- A closing brace behind a text, which may be missing there. -/
def IsClosing
    (tail : Text) : Prop :=
  tail = [] ∨ tail = ['\x7d']

/- With a closing brace behind the text, no lexeme goes on with it. -/
theorem IsClosing.stopsBefore_append_iff
    {tail : Text}
    (h : IsClosing tail)
    {l : ArithLexeme}
    {rest : Text} :
    l.StopsBefore (rest ++ tail) ↔ l.StopsBefore rest := by
  have hBrace : Text.isNameChar '\x7d' = false := by decide
  rcases h with rfl | rfl
  · rw [List.append_nil]
  · cases rest with
    | nil => simp [StopsBefore, hBrace]
    | cons c rest => rfl

/- With a closing brace behind the text, it starts with a star as before. -/
theorem IsClosing.head?_eq_star_iff
    {tail : Text}
    (h : IsClosing tail)
    {rest : Text}
    {ls : List ArithLexeme}
    (hLexes : Lexes (rest ++ tail) ls) :
    rest.head? = some '*' ↔ ls.head? = some (.operator .times) := by
  rw [← hLexes.head?_eq_star_iff]
  rcases h with rfl | rfl
  · rw [List.append_nil]
  · cases rest with
    | nil => simp
    | cons c rest => rfl

end ArithLexeme

------------------------------------------------------------
-- Texts with Tokens
------------------------------------------------------------

namespace Token

open ArithLexeme

/- What is read is made of lexemes once the closing brace is added. -/
theorem exists_lexes_of_ofText
    {body : Text}
    {ts : List Token}
    (h : ofText body = .ok ts) :
    ∃ tail ls, IsClosing tail ∧ Lexes (body ++ tail) ls ∧
      StarsApart ls ∧ ts = ls.filterMap token? := by
  fun_induction ofText body generalizing ts with
  | case1 =>
      cases h
      exact ⟨[], [], .inl rfl, .nil, starsApart_nil, rfl⟩
  | case2 => contradiction
  | case3 c rest token after hRead ih =>
      cases hAfter : ofText after with
      | error fault => simp [hAfter, Except.map] at h
      | ok others =>
          simp only [hAfter, Except.map, Except.ok.injEq] at h
          subst h
          rcases exists_takes_of_read hRead with
            ⟨l, hTakes⟩ | ⟨name, hName, hText, rfl, rfl⟩
          · rcases ih hAfter with
              ⟨tail, ls, hTail, hLexes, hStars, rfl⟩
            rcases leads_append_iff.mp hTakes.leads with
              ⟨hForm, hStops⟩
            refine ⟨tail, l :: ls, hTail, ?_, ?_, ?_⟩
            · rw [hTakes.append_eq, List.append_assoc]
              exact .cons (leads_append_iff.mpr
                ⟨hForm, hTail.stopsBefore_append_iff.mpr hStops⟩)
                hLexes
            · refine starsApart_cons.mpr ⟨fun hTimes => ?_, hStars⟩
              rw [ne_eq, ← hTail.head?_eq_star_iff hLexes]
              exact hTakes.starApart hTimes
            · rw [← hTakes.token_eq]
              cases hToken : l.token? <;> simp [hToken]
          · -- The brace that is missing ends the text.
            have hLexes : Lexes ((braced name).text ++ [])
                [.braced name] :=
              .cons (leads_append_iff.mpr ⟨hName, by simp [StopsBefore]⟩)
                .nil
            refine ⟨['\x7d'], [.braced name], .inr rfl, ?_, ?_, ?_⟩
            · rw [hText]
              simpa [ArithLexeme.text] using hLexes
            · exact starsApart_cons.mpr ⟨by simp, starsApart_nil⟩
            · rw [ofText] at hAfter
              cases hAfter
              rfl

/- A name in braces is read without its brace at the end of a text. -/
theorem ofText_unclosed
    {name : Text}
    (h : Text.isName name = true) :
    ofText ('$' :: '\x7b' :: name) = .ok [.var name] := by
  have hRead : read '$' ('\x7b' :: (name ++ [])) =
      .ok (some (.var name), []) :=
    readBraced_name h rfl
  rw [List.append_nil] at hRead
  rw [ofText_cons hRead, ofText]
  rfl

/- The tokens of lexemes are read, also without the last brace. -/
theorem ofText_of_lexes
    {text : Text}
    {ls : List ArithLexeme}
    (hLexes : Lexes text ls)
    (hStars : StarsApart ls)
    {body tail : Text}
    (hTail : IsClosing tail)
    (hText : text = body ++ tail) :
    ofText body = .ok (ls.filterMap token?) := by
  induction hLexes generalizing body tail with
  | nil =>
      rw [(List.append_eq_nil_iff.mp hText.symm).1, ofText]
      rfl
  | @cons l rest ls hLeads hRest ih =>
      rw [starsApart_cons] at hStars
      rcases leads_append_iff.mp hLeads with ⟨hForm, hStops⟩
      have hWhole : ∀ {after : Text}, rest = after ++ tail →
          ofText (l.text ++ after) =
            .ok ((l :: ls).filterMap token?) := by
        rintro after rfl
        have hStar : l = .operator .times →
            after.head? ≠ some '*' := by
          intro hTimes
          rw [ne_eq, hTail.head?_eq_star_iff hRest]
          exact hStars.1 hTimes
        rw [ofText_lexeme_append (leads_append_iff.mpr
          ⟨hForm, hTail.stopsBefore_append_iff.mp hStops⟩) hStar,
          ih hStars.2 hTail rfl]
        cases hToken : l.token? <;> simp [Except.map, hToken]
      rcases List.append_eq_append_iff.mp hText with
        ⟨after, rfl, hRestEq⟩ | ⟨last, hLast, hEnd⟩
      · exact hWhole hRestEq
      · by_cases hNil : last = []
        · rw [hNil, List.append_nil] at hLast
          rw [hNil, List.nil_append] at hEnd
          rw [← hLast, ← List.append_nil l.text]
          exact hWhole hEnd.symm
        · -- The lexeme ends in the brace that the body lacks.
          rcases hTail with rfl | rfl
          · exact absurd (List.append_eq_nil_iff.mp hEnd.symm).1 hNil
          · rcases List.append_eq_singleton_iff.mp hEnd.symm with
              ⟨hEmpty, _⟩ | ⟨rfl, rfl⟩
            · exact absurd hEmpty hNil
            · rcases exists_braced_of_text_eq hForm hLast with
                ⟨name, hName, rfl, rfl⟩
              have hRestTokens :
                  ofText [] = .ok (ls.filterMap token?) :=
                ih hStars.2 (.inl rfl) rfl
              rw [ofText, Except.ok.injEq] at hRestTokens
              rw [ofText_unclosed hName, List.filterMap_cons,
                ← hRestTokens]
              rfl

/-
  A text has tokens exactly if it, or the text with a closing
  brace behind it, is made of lexemes of which no two stars
  meet, and then the tokens are those of the lexemes.
-/
theorem ofText_eq_ok_iff_lexes
    (body : Text)
    (ts : List Token) :
    ofText body = .ok ts ↔
      ∃ ls, (Lexes body ls ∨ Lexes (body ++ ['\x7d']) ls) ∧
        StarsApart ls ∧ ts = ls.filterMap token? := by
  constructor
  · intro h
    rcases exists_lexes_of_ofText h with
      ⟨tail, ls, rfl | rfl, hLexes, hStars, hTokens⟩
    · rw [List.append_nil] at hLexes
      exact ⟨ls, .inl hLexes, hStars, hTokens⟩
    · exact ⟨ls, .inr hLexes, hStars, hTokens⟩
  · rintro ⟨ls, hLexes | hLexes, hStars, rfl⟩
    · exact ofText_of_lexes hLexes hStars (.inl rfl)
        (List.append_nil body).symm
    · exact ofText_of_lexes hLexes hStars (.inr rfl) rfl

/- The brace behind a name is missing, and its token is read. -/
theorem ofText_of_missing_brace :
    ofText ['$', '\x7b', 'x'] = .ok [.var ['x']] ∧
      ¬ ∃ ls, Lexes ['$', '\x7b', 'x'] ls := by
  refine ⟨ofText_unclosed (by decide), ?_⟩
  rintro ⟨ls, hLexes⟩
  exact not_lexes_unclosed (by decide) hLexes

end Token

end ShellToC
