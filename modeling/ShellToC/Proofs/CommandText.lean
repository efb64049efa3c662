import ShellToC.Proofs.QuotedRuns

/-
  This file shows what the template of a command stands for.

  The command is written in reference form first, with a
  backslash before each character that quoting protects, and
  its references are looked for afterwards.  The two undo
  each other: the command is copied character by character,
  but for the braces around names, and for the two numbers
  that are filled in.

  Key definitions include:
    * `Word.Quote.behind`
    * `Word.Quote.behindAll?`
    * `CommandText.expand`

  Main declarations:
    * `CommandText.textOf_atoms`
    * `CommandText.expandFrom_append`
    * `CommandText.atoms_of_literal`
    * `Template.ofCommand_copies_text`
-/

namespace ShellToC

------------------------------------------------------------
-- Open Quotes
------------------------------------------------------------

namespace Word.Quote

/- The quotes that are open behind a character that is not escaped. -/
def behind : Quote → Char → Quote
  | .none, '\x27' => .single
  | .single, '\x27' => .none
  | .none, '\x22' => .double
  | .double, '\x22' => .none
  | quote, _ => quote

/-
  The quotes that are open behind a text, unless it ends in
  a backslash that escapes what follows.
-/
def behindAll? : Quote → Text → Option Quote
  | quote, [] => some quote
  | .single, c :: rest => behindAll? (behind .single c) rest
  | _, ['\x5c'] => none
  | quote, '\x5c' :: _ :: rest => behindAll? quote rest
  | quote, c :: rest => behindAll? (quote.behind c) rest

/- Only quotes open and close quotes. -/
theorem behind_eq_self
    {c : Char}
    (hSingle : c ≠ '\x27')
    (hDouble : c ≠ '\x22')
    (quote : Quote) :
    quote.behind c = quote := by
  rw [behind.eq_def]
  split <;> simp_all

/- Single quotes are closed by nothing else. -/
theorem behind_single
    {c : Char}
    (h : c ≠ '\x27') :
    behind .single c = .single := by
  rw [behind.eq_def]
  split <;> simp_all

section Equations

attribute [local simp] behindAll?

theorem behindAll?_escape
    {quote : Quote}
    (hQuote : quote ≠ .single)
    (c : Char)
    (rest : Text) :
    behindAll? quote ('\x5c' :: c :: rest) =
      behindAll? quote rest := by
  cases quote <;> simp_all

theorem behindAll?_cons
    {quote : Quote}
    (hQuote : quote ≠ .single)
    {c : Char}
    (hSlash : c ≠ '\x5c')
    (rest : Text) :
    behindAll? quote (c :: rest) =
      behindAll? (quote.behind c) rest := by
  cases quote <;> simp_all

end Equations

end Word.Quote

------------------------------------------------------------
-- Dollar Signs
------------------------------------------------------------

namespace Reference

/- Whether a dollar sign before the text needs no braces to refer. -/
def completesDollar
    (text : Text) : Bool :=
  text.head?.any fun c =>
    c == '?' || c == '!' || Text.isNameStart c

/- Another dollar sign that starts a reference has braces behind it. -/
theorem exists_braced_of_atHead?
    {text after : Text}
    {ref : Reference}
    (hText : completesDollar text = false)
    (h : atHead? ('$' :: text) = some (ref, after)) :
    ∃ name, ref = .braced name ∧ Text.isName name = true ∧
      text = '\x7b' :: (name ++ '\x7d' :: after) := by
  cases text with
  | nil => cases h
  | cons c rest =>
      simp only [completesDollar, List.head?_cons,
        Option.any_some, Bool.or_eq_false_iff, beq_eq_false_iff_ne]
        at hText
      by_cases hBrace : c = '\x7b'
      · subst hBrace
        rw [atHead?] at h
        split at h
        next name more hName =>
          cases h
          rcases Pattern.name?_eq_some_iff.mp hName with
            ⟨rfl, hIsName, -⟩
          exact ⟨name, rfl, hIsName, rfl⟩
        next => cases h
      · have hNone : Pattern.name? (c :: rest) = none := by
          have hSome := Pattern.isSome_name? (c :: rest)
          simpa [hText.2] using hSome
        simp [atHead?, hBrace, hText, hNone] at h

/- Such a dollar sign stays, with or without braces behind it. -/
theorem atoms_leave_dollar
    {text : Text}
    (h : completesDollar text = false) :
    atoms .leave ('$' :: text) = .char '$' :: atoms .leave text := by
  cases hHead : atHead? ('$' :: text) with
  | none => exact atoms_cons .leave hHead
  | some found =>
      rcases found with ⟨ref, after⟩
      rcases exists_braced_of_atHead? h hHead with
        ⟨name, rfl, hName, rfl⟩
      rcases not_mem_tail_spelling hHead (by simp) with
        ⟨hDollar, hSlash⟩
      have hBraces : '\x7b' :: (name ++ '\x7d' :: after) =
          (braced name).spelling.tail ++ after := by
        simp [spelling]
      rw [atoms_of_atHead? .leave hHead, hBraces,
        atoms_append_of_not_mem .leave hDollar
          fun hMem => hSlash (List.mem_of_mem_tail hMem)]
      rfl

end Reference

namespace CommandText

open Word Template

------------------------------------------------------------
-- Copying a Command
------------------------------------------------------------

/-
  The rest of a command, copied character by character.
  Outside of single quotes and not behind a backslash, a name
  behind a dollar sign gets braces, which a name in braces
  has already, and the two numbers are filled in.
-/
def expandFrom
    (env : Environment) : Quote → Text → Text
  | _, [] => []
  | .single, c :: rest =>
      c :: expandFrom env (Quote.behind .single c) rest
  | quote, '\x5c' :: c :: rest =>
      '\x5c' :: c :: expandFrom env quote rest
  | quote, '$' :: '?' :: rest =>
      Text.ofInt env.status.toInt ++ expandFrom env quote rest
  | quote, '$' :: '!' :: rest =>
      Text.ofInt env.backgroundPid.toInt ++
        expandFrom env quote rest
  | quote, '$' :: rest =>
      if Text.isName (rest.takeWhile Text.isNameChar) then
        '$' :: '\x7b' :: (rest.takeWhile Text.isNameChar ++
          '\x7d' :: expandFrom env quote
            (rest.dropWhile Text.isNameChar))
      else
        '$' :: expandFrom env quote rest
  | quote, c :: rest => c :: expandFrom env (quote.behind c) rest
  termination_by _ text => text.length
  decreasing_by
    all_goals simp only [List.length_cons]
    all_goals try omega
    have hLength := Text.length_dropWhile_le Text.isNameChar rest
    omega

/- The text of a command. -/
def expand
    (env : Environment)
    (command : Text) : Text :=
  expandFrom env .none command

------------------------------------------------------------
-- Reference Form
------------------------------------------------------------

section Equations

attribute [local simp] prepareFrom

theorem prepareFrom_single
    (c : Char)
    (rest : Text) :
    prepareFrom .single (c :: rest) =
      protect c ++ prepareFrom (Quote.behind .single c) rest := by
  by_cases hc : c = '\x27'
  · subst hc
    rfl
  · rw [prepareFrom, if_neg hc, Quote.behind_single hc]

theorem prepareFrom_escape
    {quote : Quote}
    (hQuote : quote ≠ .single)
    (c : Char)
    (rest : Text) :
    prepareFrom quote ('\x5c' :: c :: rest) =
      protect '\x5c' ++ (protect c ++ prepareFrom quote rest) := by
  cases quote <;> simp_all

/- Outside of single quotes, only backslashes are protected. -/
theorem prepareFrom_cons_open
    {quote : Quote}
    (hQuote : quote ≠ .single)
    {c : Char}
    (hSlash : c ≠ '\x5c')
    (rest : Text) :
    prepareFrom quote (c :: rest) =
      c :: prepareFrom (quote.behind c) rest := by
  by_cases hSingle : c = '\x27'
  · subst hSingle
    cases quote <;> simp_all [Quote.behind]
  by_cases hDouble : c = '\x22'
  · subst hDouble
    cases quote <;> simp_all [Quote.behind]
  rw [Quote.behind_eq_self hSingle hDouble]
  cases quote <;> simp_all

end Equations

/- What is written in reference form starts as the text does. -/
theorem head?_prepareFrom
    {quote : Quote}
    (hQuote : quote ≠ .single)
    (text : Text) :
    (prepareFrom quote text).head? = text.head? := by
  cases text with
  | nil => cases quote <;> rfl
  | cons c rest =>
      by_cases hSlash : c = '\x5c'
      · subst hSlash
        cases rest with
        | nil => cases quote <;> simp_all [prepareFrom, protect]
        | cons d rest =>
            rw [prepareFrom_escape hQuote]
            rfl
      · rw [prepareFrom_cons_open hQuote hSlash]
        rfl

/- Name characters have no meaning of their own in a command. -/
theorem ne_of_isNameChar
    {c : Char}
    (h : Text.isNameChar c = true) :
    c ≠ '\x5c' ∧ c ≠ '$' ∧ c ≠ '\x27' ∧ c ≠ '\x22' := by
  refine ⟨?_, ?_, ?_, ?_⟩ <;>
    · rintro rfl
      exact absurd h (by decide)

/- A leading name and what follows it are kept apart as before. -/
theorem takeWhile_prepareFrom
    {quote : Quote}
    (hQuote : quote ≠ .single)
    (text : Text) :
    (prepareFrom quote text).takeWhile Text.isNameChar =
        text.takeWhile Text.isNameChar ∧
      (prepareFrom quote text).dropWhile Text.isNameChar =
        prepareFrom quote (text.dropWhile Text.isNameChar) := by
  induction text with
  | nil => cases quote <;> simp [prepareFrom]
  | cons c rest ih =>
      cases hc : Text.isNameChar c with
      | true =>
          have hNe := ne_of_isNameChar hc
          rw [prepareFrom_cons_open hQuote hNe.1,
            Quote.behind_eq_self hNe.2.2.1 hNe.2.2.2]
          simp [hc, ih]
      | false =>
          have hHead := head?_prepareFrom hQuote (c :: rest)
          rcases List.head?_eq_some_iff.mp hHead with ⟨more, hMore⟩
          simp [hMore, hc]

theorem name?_prepareFrom
    {quote : Quote}
    (hQuote : quote ≠ .single)
    (text : Text) :
    Pattern.name? (prepareFrom quote text) =
      (Pattern.name? text).map fun (name, after) =>
        (name, prepareFrom quote after) := by
  rcases takeWhile_prepareFrom hQuote text with ⟨hTake, hDrop⟩
  rw [Pattern.name?, Pattern.name?, hTake, hDrop]
  split <;> rfl

------------------------------------------------------------
-- Atoms of Commands
------------------------------------------------------------

/- What the rest of a command denotes. -/
def atoms
    (quote : Quote)
    (text : Text) : List Atom :=
  Reference.atoms .leave (prepareFrom quote text)

@[simp] theorem atoms_nil
    (quote : Quote) :
    atoms quote [] = [] := by
  rw [atoms, show prepareFrom quote [] = [] by
    cases quote <;> rfl, Reference.atoms_nil]

/- In single quotes every character stands for itself. -/
theorem atoms_single
    (c : Char)
    (rest : Text) :
    atoms .single (c :: rest) =
      .char c :: atoms (Quote.behind .single c) rest := by
  rw [atoms, prepareFrom_single, Reference.atoms_protect_append]
  rfl

/- A backslash and the character behind it stand for themselves. -/
theorem atoms_escape
    {quote : Quote}
    (hQuote : quote ≠ .single)
    (c : Char)
    (rest : Text) :
    atoms quote ('\x5c' :: c :: rest) =
      .char '\x5c' :: .char c :: atoms quote rest := by
  rw [atoms, prepareFrom_escape hQuote,
    Reference.atoms_protect_append,
    Reference.atoms_protect_append]
  rfl

/- Any other character but a dollar sign stands for itself. -/
theorem atoms_cons
    {quote : Quote}
    (hQuote : quote ≠ .single)
    {c : Char}
    {rest : Text}
    (hEscape : ∀ d more, c = '\x5c' → rest = d :: more → False)
    (hDollar : c ≠ '$') :
    atoms quote (c :: rest) =
      .char c :: atoms (quote.behind c) rest := by
  by_cases hSlash : c = '\x5c'
  · have hRest : rest = [] := by
      cases rest with
      | nil => rfl
      | cons d more => exact (hEscape d more hSlash rfl).elim
    have hLone : prepareFrom quote ['\x5c'] = protect '\x5c' ++ [] := by
      cases quote <;> simp_all [prepareFrom]
    rw [hSlash, hRest, atoms, hLone, Reference.atoms_protect_append,
      Reference.atoms_nil, atoms_nil]
  · rw [atoms, prepareFrom_cons_open hQuote hSlash]
    exact Reference.atoms_cons .leave
      (by simp [Reference.atHead?, hSlash, hDollar])

/- Such a character that opens and closes no quotes. -/
theorem atoms_plain
    {quote : Quote}
    (hQuote : quote ≠ .single)
    {c : Char}
    (hc : c ≠ '\x5c' ∧ c ≠ '$' ∧ c ≠ '\x27' ∧ c ≠ '\x22')
    (rest : Text) :
    atoms quote (c :: rest) = .char c :: atoms quote rest := by
  rw [atoms_cons hQuote (fun _ _ hSlash => (hc.1 hSlash).elim)
    hc.2.1, Quote.behind_eq_self hc.2.2.1 hc.2.2.2]

theorem atoms_name_append
    {quote : Quote}
    (hQuote : quote ≠ .single)
    {name : Text}
    (hName : name.all Text.isNameChar = true)
    (rest : Text) :
    atoms quote (name ++ rest) =
      name.map .char ++ atoms quote rest := by
  induction name with
  | nil => rfl
  | cons c name ih =>
      simp only [List.all_cons, Bool.and_eq_true] at hName
      rw [List.cons_append,
        atoms_plain hQuote (ne_of_isNameChar hName.1), ih hName.2]
      rfl

theorem prepareFrom_dollar
    {quote : Quote}
    (hQuote : quote ≠ .single)
    (rest : Text) :
    prepareFrom quote ('$' :: rest) =
      '$' :: prepareFrom quote rest := by
  rw [prepareFrom_cons_open hQuote (by decide),
    Quote.behind_eq_self (by decide) (by decide)]

/- One character behind a dollar sign that refers to a number. -/
theorem atoms_number
    {quote : Quote}
    (hQuote : quote ≠ .single)
    {c : Char}
    {arg : Argument}
    (h : c = '?' ∧ arg = .status ∨ c = '!' ∧ arg = .backgroundPid)
    (rest : Text) :
    atoms quote ('$' :: c :: rest) =
      .value arg :: atoms quote rest := by
  have hPrepare : prepareFrom quote ('$' :: c :: rest) =
      '$' :: c :: prepareFrom quote rest := by
    rcases h with ⟨rfl, -⟩ | ⟨rfl, -⟩ <;>
      rw [prepareFrom_dollar hQuote,
        prepareFrom_cons_open hQuote (by decide),
        Quote.behind_eq_self (by decide) (by decide)]
  have hHead : ∃ ref,
      Reference.atHead? ('$' :: c :: prepareFrom quote rest) =
        some (ref, prepareFrom quote rest) ∧
      (Fragment.ofReference .leave ref).atoms = [.value arg] := by
    rcases h with ⟨rfl, rfl⟩ | ⟨rfl, rfl⟩
    · exact ⟨.status, rfl, rfl⟩
    · exact ⟨.backgroundPid, rfl, rfl⟩
  rcases hHead with ⟨ref, hHead, hAtoms⟩
  rw [atoms, hPrepare, Reference.atoms_of_atHead? .leave hHead, hAtoms]
  rfl

/- A name behind a dollar sign gets braces. -/
theorem atoms_named
    {quote : Quote}
    (hQuote : quote ≠ .single)
    {text : Text}
    (hName : Text.isName (text.takeWhile Text.isNameChar) = true) :
    atoms quote ('$' :: text) =
      (Reference.braced
        (text.takeWhile Text.isNameChar)).spelling.map .char ++
          atoms quote (text.dropWhile Text.isNameChar) := by
  have hText : Pattern.name? text =
      some (text.takeWhile Text.isNameChar,
        text.dropWhile Text.isNameChar) := if_pos hName
  have hRead := name?_prepareFrom hQuote text
  rw [hText, Option.map_some] at hRead
  have hStart : (prepareFrom quote text).head?.any
      Text.isNameStart = true := by
    rw [← Pattern.isSome_name?, hRead]
    rfl
  have hHead := Reference.atHead?_named hStart
  rw [hRead, Option.map_some] at hHead
  rw [atoms, prepareFrom_dollar hQuote,
    Reference.atoms_of_atHead? .leave hHead]
  rfl

/- Any other dollar sign stands for itself. -/
theorem atoms_dollar
    {quote : Quote}
    (hQuote : quote ≠ .single)
    {rest : Text}
    (h : Reference.completesDollar rest = false) :
    atoms quote ('$' :: rest) = .char '$' :: atoms quote rest := by
  have hHead := h
  rw [Reference.completesDollar,
    ← head?_prepareFrom hQuote] at hHead
  rw [atoms, prepareFrom_dollar hQuote]
  exact Reference.atoms_leave_dollar hHead

------------------------------------------------------------
-- What Commands Stand For
------------------------------------------------------------

/- A leading name starts with a name start. -/
theorem isName_takeWhile
    (text : Text) :
    Text.isName (text.takeWhile Text.isNameChar) =
      text.head?.any Text.isNameStart := by
  rw [← Pattern.isSome_name?, Pattern.name?]
  cases Text.isName (text.takeWhile Text.isNameChar) <;> rfl

/- A dollar sign that is copied completes no reference. -/
theorem completesDollar_eq_false
    {rest : Text}
    (hStatus : ∀ more, rest = '?' :: more → False)
    (hPid : ∀ more, rest = '!' :: more → False)
    (hName : ¬ Text.isName (rest.takeWhile Text.isNameChar) = true) :
    Reference.completesDollar rest = false := by
  rw [isName_takeWhile] at hName
  cases rest with
  | nil => rfl
  | cons c rest =>
      have hQuestion : c ≠ '?' := fun hc => hStatus rest (by rw [hc])
      have hMark : c ≠ '!' := fun hc => hPid rest (by rw [hc])
      simpa [Reference.completesDollar, hQuestion, hMark] using hName

/- What a command denotes is its copy. -/
theorem textOf_atoms
    (env : Environment)
    (quote : Quote)
    (text : Text) :
    Atom.textOf env (atoms quote text) =
      expandFrom env quote text := by
  fun_induction expandFrom env quote text with
  | case1 quote => rw [atoms_nil, Atom.textOf_nil]
  | case2 c rest ih =>
      rw [atoms_single, ← ih]
      rfl
  | case3 quote c rest hQuote ih =>
      rw [atoms_escape hQuote, ← ih]
      rfl
  | case4 quote rest hQuote ih =>
      rw [atoms_number hQuote (Or.inl ⟨rfl, rfl⟩), ← ih]
      rfl
  | case5 quote rest hQuote ih =>
      rw [atoms_number hQuote (Or.inr ⟨rfl, rfl⟩), ← ih]
      rfl
  | case6 quote rest hQuote _ _ hName ih =>
      rw [atoms_named hQuote hName, Atom.textOf_append,
        Atom.textOf_map_char, ih]
      simp [Reference.spelling]
  | case7 quote rest hQuote hStatus hPid hName ih =>
      have hDollar := completesDollar_eq_false hStatus hPid hName
      rw [atoms_dollar hQuote hDollar, ← ih]
      rfl
  | case8 quote c rest hQuote hEscape _ _ hDollar ih =>
      rw [atoms_cons hQuote hEscape hDollar, ← ih]
      rfl

------------------------------------------------------------
-- Text in Single Quotes
------------------------------------------------------------

/- In single quotes, text is copied up to the closing quote. -/
theorem expandFrom_single_append
    (env : Environment)
    {text : Text}
    (h : '\x27' ∉ text)
    (rest : Text) :
    expandFrom env .single (text ++ rest) =
      text ++ expandFrom env .single rest := by
  induction text with
  | nil => rfl
  | cons c text ih =>
      simp only [List.mem_cons, not_or] at h
      rw [List.cons_append, expandFrom,
        Quote.behind_single (Ne.symm h.1), ih h.2]
      rfl

/- Names open and close no quotes. -/
theorem behindAll?_name_append
    {quote : Quote}
    (hQuote : quote ≠ .single)
    {name : Text}
    (hName : name.all Text.isNameChar = true)
    (rest : Text) :
    quote.behindAll? (name ++ rest) = quote.behindAll? rest := by
  induction name with
  | nil => rfl
  | cons c name ih =>
      simp only [List.all_cons, Bool.and_eq_true] at hName
      have hNe := ne_of_isNameChar hName.1
      rw [List.cons_append, Quote.behindAll?_cons hQuote hNe.1,
        Quote.behind_eq_self hNe.2.2.1 hNe.2.2.2, ih hName.2]

theorem behindAll?_dollar
    {quote : Quote}
    (hQuote : quote ≠ .single)
    (rest : Text) :
    quote.behindAll? ('$' :: rest) = quote.behindAll? rest := by
  rw [Quote.behindAll?_cons hQuote (by decide),
    Quote.behind_eq_self (by decide) (by decide)]

/- Nor does a reference to a number. -/
theorem behindAll?_number
    {quote : Quote}
    (hQuote : quote ≠ .single)
    {c : Char}
    (hc : c = '?' ∨ c = '!')
    (rest : Text) :
    quote.behindAll? ('$' :: c :: rest) =
      quote.behindAll? rest := by
  rw [behindAll?_dollar hQuote]
  rcases hc with rfl | rfl <;>
    rw [Quote.behindAll?_cons hQuote (by decide),
      Quote.behind_eq_self (by decide) (by decide)]

/- Outside of single quotes, something is left that opens them. -/
theorem ne_nil_of_behindAll?
    {quote : Quote}
    (hQuote : quote ≠ .single)
    {text : Text}
    (h : quote.behindAll? text = some .single) :
    text ≠ [] := by
  rintro rfl
  rw [Quote.behindAll?, Option.some.injEq] at h
  exact hQuote h

/-
  Text that ends in single quotes is copied by itself: no
  reference starts outside of single quotes and ends in them.
-/
theorem atoms_append
    {quote : Quote}
    {text : Text}
    (h : quote.behindAll? text = some .single)
    (rest : Text) :
    atoms quote (text ++ rest) =
      atoms quote text ++ atoms .single rest := by
  induction quote, text using expandFrom.induct with
  | case1 quote =>
      rw [Quote.behindAll?, Option.some.injEq] at h
      rw [h, atoms_nil]
      rfl
  | case2 c text ih =>
      rw [List.cons_append, atoms_single, atoms_single, ih h]
      rfl
  | case3 quote c text hQuote ih =>
      rw [Quote.behindAll?_escape hQuote] at h
      rw [List.cons_append, List.cons_append, atoms_escape hQuote,
        atoms_escape hQuote, ih h]
      rfl
  | case4 quote text hQuote ih =>
      rw [behindAll?_number hQuote (Or.inl rfl)] at h
      have hNumber := atoms_number hQuote (Or.inl ⟨rfl, rfl⟩)
      rw [List.cons_append, List.cons_append, hNumber, hNumber,
        ih h]
      rfl
  | case5 quote text hQuote ih =>
      rw [behindAll?_number hQuote (Or.inr rfl)] at h
      have hNumber := atoms_number hQuote (Or.inr ⟨rfl, rfl⟩)
      rw [List.cons_append, List.cons_append, hNumber, hNumber,
        ih h]
      rfl
  | case6 quote text hQuote _ _ hName ih =>
      -- the name ends before the quote that is still to come
      have hTail : quote.behindAll?
          (text.dropWhile Text.isNameChar) = some .single := by
        rw [behindAll?_dollar hQuote] at h
        rw [← behindAll?_name_append hQuote List.all_takeWhile,
          List.takeWhile_append_dropWhile]
        exact h
      have hEnds := ne_nil_of_behindAll? hQuote hTail
      have hTake : (text ++ rest).takeWhile Text.isNameChar =
          text.takeWhile Text.isNameChar := by
        have hSplit := congrArg List.length
          (List.takeWhile_append_dropWhile (p := Text.isNameChar)
            (l := text))
        have hPos := List.length_pos_iff.mpr hEnds
        rw [List.length_append] at hSplit
        rw [List.takeWhile_append, if_neg (by omega)]
      have hDrop : (text ++ rest).dropWhile Text.isNameChar =
          text.dropWhile Text.isNameChar ++ rest := by
        rw [List.dropWhile_append, if_neg (by simpa using hEnds)]
      have hMore := hName
      rw [← hTake] at hMore
      rw [List.cons_append, atoms_named hQuote hMore,
        atoms_named hQuote hName, hTake, hDrop, ih hTail,
        List.append_assoc]
  | case7 quote text hQuote hStatus hPid hName ih =>
      rw [behindAll?_dollar hQuote] at h
      have hDollar := completesDollar_eq_false hStatus hPid hName
      have hMore : Reference.completesDollar (text ++ rest) =
          false := by
        cases text with
        | nil => exact (ne_nil_of_behindAll? hQuote h rfl).elim
        | cons c text => exact hDollar
      rw [List.cons_append, atoms_dollar hQuote hMore,
        atoms_dollar hQuote hDollar, ih h]
      rfl
  | case8 quote c text hQuote hEscape _ _ hDollar ih =>
      have hSlash : c ≠ '\x5c' := by
        rintro rfl
        cases text with
        | nil => cases quote <;> simp_all [Quote.behindAll?]
        | cons d text => exact hEscape d text rfl rfl
      rw [Quote.behindAll?_cons hQuote hSlash] at h
      rw [List.cons_append, atoms_cons hQuote hEscape hDollar,
        atoms_cons hQuote (fun _ _ hc => (hSlash hc).elim) hDollar,
        ih h]
      rfl

/- The copy of text that ends in single quotes, and of what follows. -/
theorem expandFrom_append
    (env : Environment)
    {quote : Quote}
    {text : Text}
    (h : quote.behindAll? text = some .single)
    (rest : Text) :
    expandFrom env quote (text ++ rest) =
      expandFrom env quote text ++
        expandFrom env .single rest := by
  rw [← textOf_atoms, atoms_append h, Atom.textOf_append,
    textOf_atoms, textOf_atoms]

------------------------------------------------------------
-- Copies of Copies
------------------------------------------------------------

/- A name in braces is copied with its braces. -/
theorem atoms_braced
    {quote : Quote}
    (hQuote : quote ≠ .single)
    {name : Text}
    (hName : name.all Text.isNameChar = true)
    (rest : Text) :
    atoms quote ((Reference.braced name).spelling ++ rest) =
      (Reference.braced name).spelling.map .char ++
        atoms quote rest := by
  have hDollar (text : Text) : Reference.completesDollar
      ('\x7b' :: text) = false := by
    rfl
  simp only [Reference.spelling, List.cons_append, List.append_assoc,
    List.nil_append]
  rw [atoms_dollar hQuote (hDollar _),
    atoms_plain hQuote (by decide), atoms_name_append hQuote hName,
    atoms_plain hQuote (by decide)]
  simp

/- The first atom is the first character, or a number in its place. -/
theorem head?_atoms
    (quote : Quote)
    (text : Text) :
    (atoms quote text).head? = text.head?.map .char ∨
      ∃ arg, (atoms quote text).head? = some (.value arg) := by
  induction quote, text using expandFrom.induct with
  | case1 quote => simp
  | case2 c rest ih => simp [atoms_single]
  | case3 quote c rest hQuote ih => simp [atoms_escape hQuote]
  | case4 quote rest hQuote ih =>
      simp [atoms_number hQuote (Or.inl ⟨rfl, rfl⟩)]
  | case5 quote rest hQuote ih =>
      simp [atoms_number hQuote (Or.inr ⟨rfl, rfl⟩)]
  | case6 quote rest hQuote _ _ hName ih =>
      simp [atoms_named hQuote hName, Reference.spelling]
  | case7 quote rest hQuote hStatus hPid hName ih =>
      simp [atoms_dollar hQuote
        (completesDollar_eq_false hStatus hPid hName)]
  | case8 quote c rest hQuote hEscape _ _ hDollar ih =>
      simp [atoms_cons hQuote hEscape hDollar]

theorem head?_of_atoms_eq
    {quote : Quote}
    {text result : Text}
    (h : atoms quote text = result.map .char) :
    result.head? = text.head? := by
  have hHead := head?_atoms quote text
  rw [h] at hHead
  cases result <;> cases text <;> simp_all

/- A character that is denoted first is the first of the copy. -/
theorem exists_of_cons_eq
    {c : Char}
    {as : List Atom}
    {result : Text}
    (h : .char c :: as = result.map Atom.char) :
    ∃ rest, result = c :: rest ∧ as = rest.map Atom.char := by
  rcases List.map_eq_cons_iff.mp h.symm with ⟨d, rest, rfl, hd, rfl⟩
  cases hd
  exact ⟨rest, rfl, rfl⟩

/- A copy without numbers denotes itself. -/
theorem atoms_of_literal
    {quote : Quote}
    {text result : Text}
    (h : atoms quote text = result.map .char) :
    atoms quote result = result.map .char := by
  induction quote, text using expandFrom.induct
    generalizing result with
  | case1 quote =>
      rw [atoms_nil, eq_comm, List.map_eq_nil_iff] at h
      rw [h, atoms_nil]
      rfl
  | case2 c text ih =>
      rw [atoms_single] at h
      rcases exists_of_cons_eq h with ⟨rest, rfl, hRest⟩
      rw [atoms_single, ih hRest]
      rfl
  | case3 quote c text hQuote ih =>
      rw [atoms_escape hQuote] at h
      rcases exists_of_cons_eq h with ⟨tail, rfl, hTail⟩
      rcases exists_of_cons_eq hTail with ⟨rest, rfl, hRest⟩
      rw [atoms_escape hQuote, ih hRest]
      rfl
  | case4 quote text hQuote ih =>
      rw [atoms_number hQuote (Or.inl ⟨rfl, rfl⟩)] at h
      cases result <;> cases h
  | case5 quote text hQuote ih =>
      rw [atoms_number hQuote (Or.inr ⟨rfl, rfl⟩)] at h
      cases result <;> cases h
  | case6 quote text hQuote _ _ hName ih =>
      rw [atoms_named hQuote hName] at h
      rcases List.map_eq_append_iff.mp h.symm with
        ⟨lead, rest, rfl, hLead, hRest⟩
      have hText : lead = (Reference.braced
          (text.takeWhile Text.isNameChar)).spelling := by
        simpa using congrArg (Atom.textOf .blank) hLead
      rw [hText, atoms_braced hQuote List.all_takeWhile,
        ih hRest.symm, List.map_append]
  | case7 quote text hQuote hStatus hPid hName ih =>
      have hDollar := completesDollar_eq_false hStatus hPid hName
      rw [atoms_dollar hQuote hDollar] at h
      rcases exists_of_cons_eq h with ⟨rest, rfl, hRest⟩
      rw [Reference.completesDollar,
        ← head?_of_atoms_eq hRest] at hDollar
      rw [atoms_dollar hQuote hDollar, ih hRest]
      rfl
  | case8 quote c text hQuote hEscape _ _ hDollar ih =>
      rw [atoms_cons hQuote hEscape hDollar] at h
      rcases exists_of_cons_eq h with ⟨rest, rfl, hRest⟩
      have hHead := head?_of_atoms_eq hRest
      rw [atoms_cons hQuote ?_ hDollar, ih hRest]
      · rfl
      · rintro d more hc rfl
        rcases List.head?_eq_some_iff.mp hHead.symm with ⟨tail, hTail⟩
        exact hEscape d tail hc hTail

end CommandText

------------------------------------------------------------
-- Templates of Commands
------------------------------------------------------------

namespace Template

open CommandText

/-
  A command stands for its text, copied character by
  character, but for the braces and the numbers.  What stands
  in single quotes is copied as it is, and has no part in
  what becomes of the rest.  Where no number is filled in,
  the copy stands for itself.
-/
theorem ofCommand_copies_text
    (env : Environment)
    (command : Text) :
    (ofCommand command).filled? env = some (expand env command) ∧
    (∀ before inside after,
      command = before ++ inside ++ after →
      Word.Quote.behindAll? .none before = some .single →
      '\x27' ∉ inside →
      (ofCommand command).filled? env =
        some (expand env before ++ inside ++
          expandFrom env .single after)) ∧
    ∀ result, ofCommand command = .literal result →
      ofCommand result = .literal result := by
  have hDenotes : (ofCommand command).Denotes
      (atoms .none command) :=
    denotes_resolve .leave _
  have hFilled : (ofCommand command).filled? env =
      some (expand env command) := by
    rw [hDenotes.filled?_eq env, textOf_atoms]
    rfl
  refine ⟨hFilled, ?_, ?_⟩
  · rintro before inside after rfl hBefore hInside
    rw [hFilled, List.append_assoc before, expand,
      expandFrom_append env hBefore,
      expandFrom_single_append env hInside, List.append_assoc]
    rfl
  · intro result hResult
    rw [hResult] at hDenotes
    exact resolve_eq_literal (atoms_of_literal hDenotes)

/-
  References in double quotes, in single quotes, behind a
  backslash and in braces, and a number.
-/
theorem ofCommand_copies_text_of_quotes :
    let env : Environment := ⟨fun _ => none, -3, 0⟩
    let before : Text := "a% \x22$x\x22 \x27"
    let inside : Text := "$y%\\"
    let after : Text := "\x27 \\$z "
    let numbered := before ++ inside ++ (after ++ ['$', '?'])
    let copy : Text :=
      "a% \x22$\x7bx\x7d\x22 \x27$y%\\\x27 \\$z "
    Word.Quote.behindAll? .none before = some .single ∧
    '\x27' ∉ inside ∧
    (ofCommand numbered).filled? env =
      some (expand env before ++ inside ++
        expandFrom env .single (after ++ ['$', '?'])) ∧
    (ofCommand numbered).filled? env = some (expand env numbered) ∧
    expand env numbered = copy ++ ['-', '3'] ∧
    ofCommand (before ++ inside ++ after) = .literal copy ∧
    ofCommand copy = .literal copy := by
  intro env before inside after numbered copy
  have hBefore : Word.Quote.behindAll? .none before =
      some .single := by
    decide +kernel
  have hInside : '\x27' ∉ inside := by
    decide +kernel
  have hText : expand env numbered = copy ++ ['-', '3'] := by
    decide +kernel
  have hLiteral : ofCommand (before ++ inside ++ after) =
      .literal copy := by
    decide +kernel
  rcases ofCommand_copies_text env numbered with
    ⟨hFilled, hQuoted, -⟩
  rcases ofCommand_copies_text env (before ++ inside ++ after) with
    ⟨-, -, hAgain⟩
  exact ⟨hBefore, hInside,
    hQuoted before inside (after ++ ['$', '?']) rfl hBefore hInside,
    hFilled, hText, hLiteral, hAgain copy hLiteral⟩

end Template

end ShellToC
