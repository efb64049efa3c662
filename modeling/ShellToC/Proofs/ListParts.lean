import ShellToC.Code.Expr
import ShellToC.Proofs.ListOperators
import ShellToC.Proofs.Patterns

/-
  This file finds the operators of command lists again in what
  the patterns single out.

  What stands around a condition, a command or an expression
  is spelt without them.  An arithmetic expression cannot have
  one in it.

  Main declarations:
    * `ArithExpr.exists_error`
    * `Pipeline.Lists.behind_keyword`
    * `Pipeline.Lists.enclosed`
    * `Pipeline.Lists.arithmetic`
    * `Pipeline.Lists.backgrounded`
-/

namespace ShellToC

------------------------------------------------------------
-- Arithmetic
------------------------------------------------------------

/- A character stays in what is left of a text if it ends no run. -/
theorem Text.mem_dropWhile
    {p : Char → Bool}
    {c : Char}
    {text : Text}
    (hMem : c ∈ text)
    (hTake : c ∉ text.takeWhile p) :
    c ∈ text.dropWhile p := by
  rw [← List.takeWhile_append_dropWhile (p := p) (l := text),
    List.mem_append] at hMem
  exact hMem.resolve_left hTake

theorem Text.not_mem_of_all
    {p : Char → Bool}
    {c : Char}
    {text : Text}
    (hText : text.all p = true)
    (hc : p c = false) :
    c ∉ text := by
  intro hMem
  have hp := List.all_eq_true.mp hText c hMem
  rw [hc] at hp
  contradiction

namespace Token

variable {op c : Char}
variable {text rest after : Text}
variable {token : Option Token}

/- An operator of command lists is no part of a name. -/
theorem isNameChar_operator
    (hOp : op = '&' ∨ op = '|') :
    Text.isNameChar op = false := by
  rcases hOp with rfl | rfl <;> decide

/- Reading over the characters of a name leaves the operator. -/
theorem mem_dropWhile_isNameChar
    (hOp : op = '&' ∨ op = '|')
    (hMem : op ∈ text) :
    op ∈ text.dropWhile Text.isNameChar :=
  Text.mem_dropWhile hMem
    (Text.not_mem_of_all List.all_takeWhile
      (isNameChar_operator hOp))

theorem mem_of_readBraced
    (hOp : op = '&' ∨ op = '|')
    (h : readBraced text = .ok (token, after))
    (hMem : op ∈ text) :
    op ∈ after := by
  simp only [readBraced] at h
  split at h
  next hName =>
    cases h
    have hTake := Text.not_mem_of_all
      (Text.all_isNameChar_of_isName hName)
      (isNameChar_operator hOp)
    have hDrop := Text.mem_dropWhile hMem hTake
    cases hRest : text.dropWhile (· != '\x7d') with
    | nil => simp [hRest] at hDrop
    | cons brace tail =>
        have hHead := List.head?_dropWhile_not (· != '\x7d') text
        have hBrace : brace = '\x7d' := by
          simpa [hRest] using hHead
        rw [hRest, List.mem_cons, hBrace] at hDrop
        refine hDrop.resolve_left ?_
        rcases hOp with rfl | rfl <;> decide
  next => contradiction

theorem mem_of_readReference
    (hOp : op = '&' ∨ op = '|')
    (h : readReference text = .ok (token, after))
    (hMem : op ∈ text) :
    op ∈ after := by
  unfold readReference at h
  split at h
  next rest =>
    refine mem_of_readBraced hOp h ?_
    rcases hOp with rfl | rfl <;> simpa using hMem
  next rest =>
    cases h
    rcases hOp with rfl | rfl <;> simpa using hMem
  next rest =>
    cases h
    rcases hOp with rfl | rfl <;> simpa using hMem
  next =>
    split at h
    · cases h
      exact mem_dropWhile_isNameChar hOp hMem
    · contradiction

/- No token starts with an operator of command lists. -/
theorem exists_read_eq_error
    (hOp : op = '&' ∨ op = '|') :
    ∃ fault, read op rest = .error fault := by
  rcases hOp with rfl | rfl <;> exact ⟨_, rfl⟩

/- No token has an operator of command lists in it. -/
theorem mem_of_read
    (hOp : op = '&' ∨ op = '|')
    (h : read c rest = .ok (token, after))
    (hMem : op ∈ c :: rest) :
    op ∈ after := by
  have hFirst : op ≠ c := by
    rintro rfl
    rcases exists_read_eq_error hOp with ⟨fault, hRead⟩
    rw [hRead] at h
    contradiction
  have hRest : op ∈ rest :=
    (List.mem_cons.mp hMem).resolve_left hFirst
  unfold read at h
  split at h
  · cases h
    exact hRest
  split at h
  · exact mem_of_readReference hOp h hRest
  split at h
  · cases h
    exact mem_dropWhile_isNameChar hOp hRest
  split at h
  · cases h
    exact mem_dropWhile_isNameChar hOp hRest
  split at h
  · cases h
    exact hRest
  split at h
  · cases h
    exact hRest
  · unfold readOperator at h
    split at h
    · split at h
      · contradiction
      · cases h
        exact hRest
    · contradiction

theorem not_mem_of_ofText
    {tokens : List Token}
    (hOp : op = '&' ∨ op = '|')
    (h : ofText text = .ok tokens) :
    op ∉ text := by
  fun_induction ofText text generalizing tokens with
  | case1 => simp
  | case2 => contradiction
  | case3 c rest token after hRead ih =>
      intro hMem
      cases hAfter : ofText after with
      | error fault => simp [hAfter, Except.map] at h
      | ok others => exact ih hAfter (mem_of_read hOp hRead hMem)

end Token

/- Arithmetic with an operator of command lists is reported. -/
theorem ArithExpr.exists_error
    {op : Char}
    {text : Text}
    (hOp : op = '&' ∨ op = '|')
    (hMem : op ∈ text) :
    ∃ fault, ofText text = .error fault := by
  unfold ofText
  split
  next fault _ => exact ⟨fault, rfl⟩
  next hTokens =>
    exact absurd hMem (Token.not_mem_of_ofText hOp hTokens)
  next tokens _ hTokens =>
    exact absurd hMem (Token.not_mem_of_ofText hOp hTokens)

------------------------------------------------------------
-- Lists in Parts of a Statement
------------------------------------------------------------

namespace Pipeline

variable {text before rest : Text}
variable {op : Char}

theorem Lists.mem
    (h : Lists text before op rest) :
    op ∈ text := by
  simp [h.text_eq]

/- A text of other characters has no operator in it. -/
theorem Lists.not_mem
    (h : Lists text before op rest)
    {part : Text}
    (hPart : '&' ∉ part ∧ '|' ∉ part) :
    op ∉ part := by
  rcases h.op_eq with rfl | rfl
  · exact hPart.1
  · exact hPart.2

/- What follows a keyword and blanks has the operator in it. -/
theorem Lists.behind_keyword
    (h : Lists text before op rest)
    {lead keyword blanks part : Text}
    (hText : lead ++ op :: op :: rest =
      keyword ++ (blanks ++ part))
    (hKeyword : '&' ∉ keyword ∧ '|' ∉ keyword)
    (hBlanks : blanks.all Text.isBlank = true) :
    ∃ a, part = a ++ op :: op :: rest := by
  have hLead : op ∉ keyword ++ blanks := by
    rw [List.mem_append, not_or]
    exact ⟨h.not_mem hKeyword, h.not_mem_blanks hBlanks⟩
  have hSplit : lead ++ op :: op :: rest =
      (keyword ++ blanks) ++ (part ++ []) := by
    simp [hText]
  rcases Text.split_around hSplit hLead List.not_mem_nil with
    ⟨a, b, -, hRest, hPart⟩
  rw [List.append_nil] at hRest
  exact ⟨a, hRest ▸ hPart⟩

/- What stands between an opening and a closing has the operator in it. -/
theorem Lists.enclosed
    (h : Lists text before op rest)
    {lead opening closing value inner : Text}
    (hText : text = lead ++ value)
    (hLead : op ∉ lead)
    (hInner : Pattern.enclosed? opening closing value = some inner)
    (hOpening : '&' ∉ opening ∧ '|' ∉ opening)
    (hClosing : '&' ∉ closing ∧ '|' ∉ closing) :
    ∃ a b, ∃ last ∈ Pattern.optionalQuote,
      inner = a ++ op :: op :: b ∧
        rest = b ++ (closing ++ last) := by
  have hQuote : ∀ quote ∈ Pattern.optionalQuote,
      '&' ∉ quote ∧ '|' ∉ quote := by
    decide
  rcases Pattern.exists_of_enclosed? hInner with
    ⟨first, hFirst, last, hLast, hValue⟩
  have hSplit : before ++ op :: op :: rest =
      (lead ++ (first ++ opening)) ++
        (inner ++ (closing ++ last)) := by
    rw [← h.text_eq, hText, hValue, List.append_assoc lead]
  rcases Text.split_around hSplit (by
      simp only [List.mem_append, not_or]
      exact ⟨hLead, h.not_mem (hQuote first hFirst),
        h.not_mem hOpening⟩) (by
      rw [List.mem_append, not_or]
      exact ⟨h.not_mem hClosing, h.not_mem (hQuote last hLast)⟩)
    with ⟨a, b, -, hRest, hPart⟩
  exact ⟨a, b, last, hLast, hPart, hRest⟩

/- An expression with the operator in it is at fault. -/
theorem Lists.arithmetic
    (h : Lists text before op rest)
    {lead value expr : Text}
    (hText : text = lead ++ value)
    (hLead : op ∉ lead)
    (hExpr : Pattern.arithmetic? value = some expr) :
    ∃ fault, ArithExpr.ofText expr = .error fault := by
  rcases h.enclosed hText hLead
    (Option.filter_eq_some_iff.mp hExpr).1
    (by rw [Text.ofString_ofList]; decide)
    (by rw [Text.ofString_ofList]; decide) with
    ⟨a, b, -, -, rfl, -⟩
  exact ArithExpr.exists_error h.op_eq
    (List.mem_append_right a List.mem_cons_self)

/-
  The command of a job has the operator in it.  It does not
  end with an ampersand, so the one behind it is no part of
  the operator.
-/
theorem Lists.backgrounded
    (h : Lists text before op rest)
    {command : Text}
    (hCommand : Pattern.backgrounded? text = some command) :
    ∃ a b blanks, blanks.all Text.isBlank = true ∧
      command = a ++ op :: op :: b ∧
        rest = b ++ (blanks ++ ['&']) := by
  rcases Pattern.exists_of_backgrounded? hCommand with
    ⟨blanks, hBlanks, hText, hLast⟩
  have hWhole : before ++ op :: op :: rest =
      (command ++ blanks) ++ ['&'] := by
    rw [← h.text_eq, hText, List.append_assoc]
  rcases List.eq_nil_or_concat rest with rfl | ⟨init, last, rfl⟩
  · have hInit : (before ++ [op]) ++ [op] =
        (command ++ blanks) ++ ['&'] := by
      rw [← hWhole]
      simp
    rcases List.append_inj' hInit rfl with ⟨hFront, hOp⟩
    cases hOp
    rcases List.eq_nil_or_concat blanks with
      rfl | ⟨others, blank, rfl⟩
    · rw [List.append_nil] at hFront
      exact absurd (by simp [← hFront]) hLast
    · rw [List.concat_eq_append, ← List.append_assoc] at hFront
      rcases List.append_inj' hFront rfl with ⟨-, hBlank⟩
      cases hBlank
      exact absurd (by simp) (h.not_mem_blanks hBlanks)
  · have hInit : (before ++ op :: op :: init) ++ [last] =
        (command ++ blanks) ++ ['&'] := by
      rw [← hWhole]
      simp
    rcases List.append_inj' hInit rfl with ⟨hFront, hEnd⟩
    rw [← List.nil_append (command ++ blanks)] at hFront
    rcases Text.split_around hFront List.not_mem_nil
      (h.not_mem_blanks hBlanks) with ⟨a, b, -, rfl, hPart⟩
    refine ⟨a, b, blanks, hBlanks, hPart, ?_⟩
    rw [List.concat_eq_append, hEnd, List.append_assoc]

/- The name and the equals sign of an assignment are no operator. -/
theorem Lists.not_mem_assigned
    (h : Lists text before op rest)
    {name : Text}
    (hName : Text.isName name = true) :
    op ∉ name ++ ['='] := by
  rw [List.mem_append, not_or]
  refine ⟨Text.not_mem_of_all
    (Text.all_isNameChar_of_isName hName)
    (Token.isNameChar_operator h.op_eq), h.not_mem (by decide)⟩

end Pipeline

end ShellToC
