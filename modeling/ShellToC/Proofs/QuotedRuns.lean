import ShellToC.Proofs.FilledTemplates

/-
  This file shows when a run of text in double quotes keeps
  its value inside of a longer word.

  The quotes are taken away before references are looked
  for.  So a reference that starts in the run can end behind
  it, in text that the closing quote should keep apart.  The
  value of the word is that of the run and that of the rest
  side by side exactly if no reference does so.

  Key definitions include:
    * `Word.fitsInDouble`
    * `Word.doubleQuoted`
    * `Word.isReferenceForm`
    * `Reference.crosses`

  Main declarations:
    * `Word.unquote_doubleQuoted_append`
    * `Reference.atoms_append_of_not_crosses`
    * `Reference.blankLength_lt_of_crosses`
    * `Template.ofWord_append_iff`
-/

namespace ShellToC

------------------------------------------------------------
-- Runs in Double Quotes
------------------------------------------------------------

namespace Word

/-
  Whether a closing quote can follow the text in double
  quotes: it holds no quote that is not escaped, and it does
  not end in a backslash that would escape one.
-/
def fitsInDouble : Text → Bool
  | [] => true
  | ['\x5c'] => false
  | '\x5c' :: _ :: rest => fitsInDouble rest
  | c :: rest => c != '\x22' && fitsInDouble rest

/- The text in double quotes. -/
def doubleQuoted
    (text : Text) : Text :=
  '\x22' :: (text ++ ['\x22'])

/- A character that neither is a lone backslash nor escapes one. -/
theorem ne_backslash
    {c : Char}
    {rest : Text}
    (hLone : c = '\x5c' → rest = [] → False)
    (hEscape : ∀ d more, c = '\x5c' → rest = d :: more → False) :
    c ≠ '\x5c' := by
  intro hc
  cases rest with
  | nil => exact hLone hc rfl
  | cons d more => exact hEscape d more hc rfl

section Equations

attribute [local simp] unquoteFrom

/- Any other character stays in double quotes. -/
theorem unquoteFrom_double_cons
    {c : Char}
    (hSlash : c ≠ '\x5c')
    (hQuote : c ≠ '\x22')
    (rest : Text) :
    unquoteFrom .double (c :: rest) =
      c :: unquoteFrom .double rest := by
  rw [unquoteFrom.eq_def]
  split <;> simp_all

/- The closing quote ends what is read in double quotes. -/
theorem unquoteFrom_double_append
    {text : Text}
    (h : fitsInDouble text = true)
    (rest : Text) :
    unquoteFrom .double (text ++ '\x22' :: rest) =
      unquoteFrom .double text ++ unquoteFrom .none rest := by
  fun_induction fitsInDouble text with
  | case1 => simp
  | case2 => cases h
  | case3 c text ih => simp [ih h]
  | case4 c text hLone hEscape ih =>
      rw [Bool.and_eq_true, bne_iff_ne] at h
      have hSlash := ne_backslash hLone hEscape
      rw [List.cons_append, unquoteFrom_double_cons hSlash h.1,
        unquoteFrom_double_cons hSlash h.1, ih h.2,
        List.cons_append]

/- The quoting of a run is taken away apart from what follows. -/
theorem unquote_doubleQuoted_append
    {text : Text}
    (h : fitsInDouble text = true)
    (rest : Text) :
    unquote (doubleQuoted text ++ rest) =
      unquote (doubleQuoted text) ++ unquote rest := by
  have hOpen (rest : Text) :
      unquote (doubleQuoted text ++ rest) =
        unquoteFrom .double text ++ unquoteFrom .none rest := by
    rw [← unquoteFrom_double_append h]
    simp [unquote, doubleQuoted]
  have hAlone := hOpen []
  rw [List.append_nil] at hAlone
  rw [hOpen, hAlone]
  simp [unquote]

end Equations

------------------------------------------------------------
-- Reference Form
------------------------------------------------------------

/- Whether every backslash protects the character behind it. -/
def isReferenceForm : Text → Bool
  | [] => true
  | ['\x5c'] => false
  | '\x5c' :: c :: rest =>
      (c == '\x5c' || c == '$') && isReferenceForm rest
  | _ :: rest => isReferenceForm rest

theorem isReferenceForm_cons
    {c : Char}
    (h : c ≠ '\x5c')
    (rest : Text) :
    isReferenceForm (c :: rest) = isReferenceForm rest := by
  rw [isReferenceForm.eq_def]
  split <;> simp_all

theorem isReferenceForm_append
    {text : Text}
    (h : '\x5c' ∉ text)
    (rest : Text) :
    isReferenceForm (text ++ rest) = isReferenceForm rest := by
  induction text with
  | nil => rfl
  | cons c text ih =>
      simp only [List.mem_cons, not_or] at h
      rw [List.cons_append, isReferenceForm_cons (Ne.symm h.1),
        ih h.2]

theorem isReferenceForm_protect_append
    (c : Char)
    (rest : Text) :
    isReferenceForm (protect c ++ rest) =
      isReferenceForm rest := by
  unfold protect
  split
  next hc => rcases hc with rfl | rfl <;> simp [isReferenceForm]
  next hc =>
    exact isReferenceForm_cons (fun h => hc (Or.inr h)) rest

/- Taking the quoting away leaves reference form. -/
theorem isReferenceForm_unquoteFrom
    (quote : Quote)
    (text : Text) :
    isReferenceForm (unquoteFrom quote text) = true := by
  fun_induction unquoteFrom quote text with
  | case1 => rfl
  | case2 rest ih => exact ih
  | case3 c rest hc ih =>
      rw [isReferenceForm_protect_append, ih]
  | case4 => rfl
  | case5 quote c rest hQuote ih =>
      unfold unescape
      split
      · rw [isReferenceForm_protect_append, ih]
      · rw [List.append_assoc, isReferenceForm_protect_append,
          isReferenceForm_protect_append, ih]
  | case6 rest ih => exact ih
  | case7 rest ih => exact ih
  | case8 rest ih => exact ih
  | case9 quote c rest _ hLone hEscape _ _ _ ih =>
      rw [isReferenceForm_cons (ne_backslash hLone hEscape), ih]

end Word

------------------------------------------------------------
-- References That Cross
------------------------------------------------------------

namespace Reference

/-
  Whether a reference starts in the text and ends in what
  follows it.  Both are read from the left as one.
-/
def crosses
    (text more : Text) : Bool :=
  match text with
  | [] => false
  | c :: rest =>
      match atHead? (c :: rest ++ more) with
      | none => crosses rest more
      | some (ref, _) =>
          if (c :: rest).length < ref.spelling.length then
            true
          else
            crosses ((c :: rest).drop ref.spelling.length) more
  termination_by text.length
  decreasing_by
    · simp
    · have hPos := length_spelling_pos ref
      simp only [List.length_drop, List.length_cons]
      omega

/- A reference that does not cross is found in the text alone. -/
theorem exists_of_length_le
    {text more after : Text}
    {ref : Reference}
    (h : atHead? (text ++ more) = some (ref, after))
    (hLength : ref.spelling.length ≤ text.length) :
    after = text.drop ref.spelling.length ++ more ∧
      text = ref.spelling ++ text.drop ref.spelling.length ∧
      atHead? text =
        some (ref, text.drop ref.spelling.length) := by
  have hSplit := spelling_append_of_atHead? h
  have hText : text =
      ref.spelling ++ text.drop ref.spelling.length := by
    have hTake := congrArg (List.take ref.spelling.length) hSplit
    rw [List.take_left, List.take_append_of_le_length hLength]
      at hTake
    calc text
        _ = text.take ref.spelling.length ++
            text.drop ref.spelling.length :=
          (List.take_append_drop ..).symm
        _ = ref.spelling ++ text.drop ref.spelling.length := by
          rw [← hTake]
  have hAfter : after = text.drop ref.spelling.length ++ more := by
    have hDrop := congrArg (List.drop ref.spelling.length) hSplit
    rwa [List.drop_left, List.drop_append_of_le_length hLength]
      at hDrop
  refine ⟨hAfter, hText, ?_⟩
  have hAlone := atHead?_spelling_append h ⟨more, hAfter.symm⟩
  rwa [← hText] at hAlone

/- A reference that crosses takes something of what follows. -/
theorem exists_of_length_lt
    {text more after : Text}
    {ref : Reference}
    (h : atHead? (text ++ more) = some (ref, after))
    (hLength : text.length < ref.spelling.length) :
    ∃ lead, lead ≠ [] ∧ ref.spelling = text ++ lead ∧
      more = lead ++ after := by
  have hSplit := spelling_append_of_atHead? h
  rcases List.append_eq_append_iff.mp hSplit with
    ⟨mid, hText, -⟩ | ⟨lead, hSpelling, hMore⟩
  · rw [hText, List.length_append] at hLength
    omega
  · refine ⟨lead, ?_, hSpelling, hMore⟩
    rintro rfl
    rw [hSpelling, List.append_nil] at hLength
    exact Nat.lt_irrefl _ hLength

theorem atHead?_eq_none_of_append
    {text more : Text}
    (h : atHead? (text ++ more) = none) :
    atHead? text = none := by
  refine Classical.byContradiction fun hSome => ?_
  exact atHead?_ne_none_append hSome more h

/- Where no reference crosses, the texts have their atoms apart. -/
theorem atoms_append_of_not_crosses
    {text more : Text}
    (expansion : Expansion)
    (h : crosses text more = false) :
    atoms expansion (text ++ more) =
      atoms expansion text ++ atoms expansion more := by
  fun_induction crosses text more with
  | case1 => simp
  | case2 c rest hHead ih =>
      have hAlone := atHead?_eq_none_of_append hHead
      rw [List.cons_append] at hHead ⊢
      rw [atoms_cons expansion hHead, atoms_cons expansion hAlone,
        ih h, List.cons_append]
  | case3 => cases h
  | case4 c rest ref after hHead hLength ih =>
      rcases exists_of_length_le hHead (Nat.le_of_not_lt hLength)
        with ⟨hAfter, -, hAlone⟩
      rw [hAfter] at hHead
      rw [atoms_of_atHead? expansion hHead,
        atoms_of_atHead? expansion hAlone, ih h, List.append_assoc]

------------------------------------------------------------
-- Values That Differ
------------------------------------------------------------

/- Behind its first character, a reference has no other that starts one. -/
theorem not_mem_tail_spelling
    {text after : Text}
    {ref : Reference}
    (h : atHead? text = some (ref, after))
    (hRef : ∀ c, ref ≠ .escaped c) :
    '$' ∉ ref.spelling.tail ∧ '\x5c' ∉ ref.spelling := by
  have hNames {name : Text} (hName : Text.isName name = true) :
      '$' ∉ name ∧ '\x5c' ∉ name := by
    have hAll := List.all_eq_true.mp
      (Text.all_isNameChar_of_isName hName)
    exact ⟨fun hMem => absurd (hAll _ hMem) (by decide),
      fun hMem => absurd (hAll _ hMem) (by decide)⟩
  unfold atHead? at h
  split at h
  next c rest =>
    split at h
    next =>
      cases h
      exact absurd rfl (hRef c)
    next => contradiction
  next rest =>
    split at h
    next name after hName =>
      cases h
      have hName := hNames (Pattern.name?_eq_some_iff.mp hName).2.1
      simp [spelling, hName.1, hName.2]
    next => contradiction
  next =>
    cases h
    simp [spelling]
  next =>
    cases h
    simp [spelling]
  next rest _ _ _ =>
    rcases Option.map_eq_some_iff.mp h with
      ⟨⟨name, tail⟩, hName, hPair⟩
    cases hPair
    have hName := hNames (Pattern.name?_eq_some_iff.mp hName).2.1
    simp [spelling, hName.1, hName.2]
  next => contradiction

/- Characters that start no reference are atoms of their own. -/
theorem atoms_append_of_not_mem
    (expansion : Expansion)
    {text : Text}
    (hDollar : '$' ∉ text)
    (hSlash : '\x5c' ∉ text)
    (rest : Text) :
    atoms expansion (text ++ rest) =
      text.map .char ++ atoms expansion rest := by
  induction text with
  | nil => rfl
  | cons c text ih =>
      simp only [List.mem_cons, not_or] at hDollar hSlash
      have hHead : atHead? (c :: (text ++ rest)) = none := by
        simp [atHead?, Ne.symm hDollar.1, Ne.symm hSlash.1]
      rw [List.cons_append, atoms_cons expansion hHead,
        ih hDollar.2 hSlash.2]
      rfl

/- What is left of a text behind a reference is in reference form. -/
theorem isReferenceForm_of_atHead?
    {text after : Text}
    {ref : Reference}
    (h : atHead? text = some (ref, after))
    (rest : Text)
    (hForm : Word.isReferenceForm (ref.spelling ++ rest) = true) :
    Word.isReferenceForm rest = true := by
  by_cases hRef : ∀ c, ref ≠ .escaped c
  · rwa [Word.isReferenceForm_append
      (not_mem_tail_spelling h hRef).2] at hForm
  · simp only [ne_eq, Classical.not_forall, Classical.not_not]
      at hRef
    rcases hRef with ⟨c, rfl⟩
    simp only [spelling, List.cons_append, List.nil_append,
      Word.isReferenceForm, Bool.and_eq_true] at hForm
    exact hForm.2

/- A character that starts no reference leaves reference form. -/
theorem isReferenceForm_of_none
    {c : Char}
    {rest more : Text}
    (h : atHead? (c :: rest ++ more) = none)
    (hForm : Word.isReferenceForm (c :: rest) = true) :
    Word.isReferenceForm rest = true := by
  by_cases hSlash : c = '\x5c'
  · subst hSlash
    cases rest with
    | nil => cases hForm
    | cons d rest =>
        simp only [Word.isReferenceForm, Bool.and_eq_true,
          Bool.or_eq_true, beq_iff_eq] at hForm
        simp [atHead?, hForm.1] at h
  · rwa [Word.isReferenceForm_cons hSlash] at hForm

end Reference

/- The environment in which nothing is set. -/
def Environment.blank : Environment :=
  ⟨fun _ => none, 0, 0⟩

namespace Reference

/- The length of the value of a text in which no variable is set. -/
def blankLength
    (text : Text) : Nat :=
  (Atom.textOf .blank (atoms .fill text)).length

/- The length of the value of a reference. -/
def blankWidth
    (ref : Reference) : Nat :=
  (Atom.textOf .blank
    (Fragment.ofReference .fill ref).atoms).length

theorem blankLength_of_atHead?
    {text after : Text}
    {ref : Reference}
    (h : atHead? text = some (ref, after)) :
    blankLength text = ref.blankWidth + blankLength after := by
  rw [blankLength, atoms_of_atHead? .fill h, Atom.textOf_append,
    List.length_append]
  rfl

theorem blankLength_cons
    {c : Char}
    {rest : Text}
    (h : atHead? (c :: rest) = none) :
    blankLength (c :: rest) = blankLength rest + 1 := by
  rw [blankLength, atoms_cons .fill h]
  rfl

theorem blankLength_append_of_not_mem
    {text : Text}
    (hDollar : '$' ∉ text)
    (hSlash : '\x5c' ∉ text)
    (rest : Text) :
    blankLength (text ++ rest) =
      text.length + blankLength rest := by
  rw [blankLength, atoms_append_of_not_mem .fill hDollar hSlash,
    Atom.textOf_append, Atom.textOf_map_char, List.length_append]
  rfl

/-
  The value of a reference is shorter than that of a part of
  it with the characters behind the part.
-/
theorem blankWidth_lt
    {ref : Reference}
    (hRef : ∀ c, ref ≠ .escaped c)
    {text lead : Text}
    (hText : text ≠ [])
    (hLead : lead ≠ [])
    (hSpelling : ref.spelling = text ++ lead) :
    ref.blankWidth < blankLength text + lead.length := by
  have hPos : 0 < lead.length := List.length_pos_iff.mpr hLead
  -- Numbers are one digit long, and have a dollar sign before them.
  have hNumber {c : Char} (h : ['$', c] = text ++ lead) :
      1 < blankLength text + lead.length := by
    rcases List.exists_cons_of_ne_nil hText with ⟨d, rest, rfl⟩
    rw [List.cons_append, List.cons.injEq] at h
    have hRest : rest = [] := by
      rcases List.singleton_eq_append_iff.mp h.2 with h | h
      · exact h.1
      · exact absurd h.2 hLead
    subst hRest
    have hDollar : blankLength [d] = 1 := by
      rw [← h.1, blankLength_cons rfl, blankLength, atoms_nil]
      rfl
    omega
  cases ref with
  | escaped c => exact absurd rfl (hRef c)
  | braced name =>
      change 0 < _
      omega
  | named name =>
      change 0 < _
      omega
  | status => exact hNumber hSpelling
  | backgroundPid => exact hNumber hSpelling

/- Where a reference crosses, it leaves less than its two parts do. -/
theorem blankLength_lt_of_atHead?
    {text more after : Text}
    {ref : Reference}
    (h : atHead? (text ++ more) = some (ref, after))
    (hLength : text.length < ref.spelling.length)
    (hText : text ≠ [])
    (hForm : Word.isReferenceForm text = true) :
    blankLength (text ++ more) <
      blankLength text + blankLength more := by
  rcases exists_of_length_lt h hLength with
    ⟨lead, hLead, hSpelling, rfl⟩
  rcases List.exists_cons_of_ne_nil hText with ⟨c, rest, rfl⟩
  -- An escape would leave a lone backslash in the text.
  have hRef : ∀ d, ref ≠ .escaped d := by
    rintro d rfl
    simp only [spelling, List.cons_append, List.cons.injEq]
      at hSpelling
    rcases List.singleton_eq_append_iff.mp hSpelling.2 with h | h
    · rw [← hSpelling.1, h.1] at hForm
      cases hForm
    · exact hLead h.2
  rcases not_mem_tail_spelling h hRef with ⟨hDollar, hSlash⟩
  rw [hSpelling] at hDollar hSlash
  have hLeadDollar : '$' ∉ lead := fun hMem =>
    hDollar (List.mem_append_right rest hMem)
  have hLeadSlash : '\x5c' ∉ lead := fun hMem =>
    hSlash (List.mem_append_right (c :: rest) hMem)
  have hWidth := blankWidth_lt hRef hText hLead hSpelling
  rw [blankLength_of_atHead? h,
    blankLength_append_of_not_mem hLeadDollar hLeadSlash]
  omega

/- A text in which a reference crosses has a shorter value than its parts. -/
theorem blankLength_lt_of_crosses
    {text more : Text}
    (h : crosses text more = true)
    (hForm : Word.isReferenceForm text = true) :
    blankLength (text ++ more) <
      blankLength text + blankLength more := by
  fun_induction crosses text more with
  | case1 => cases h
  | case2 c rest hHead ih =>
      have hAlone := atHead?_eq_none_of_append hHead
      have hRest := ih h (isReferenceForm_of_none hHead hForm)
      rw [List.cons_append] at hHead ⊢
      rw [blankLength_cons hHead, blankLength_cons hAlone]
      omega
  | case3 c rest ref after hHead hLength =>
      exact blankLength_lt_of_atHead? hHead hLength (by simp) hForm
  | case4 c rest ref after hHead hLength ih =>
      rcases exists_of_length_le hHead (Nat.le_of_not_lt hLength)
        with ⟨hAfter, hSplit, hAlone⟩
      rw [hSplit] at hForm
      have hRest := ih h (isReferenceForm_of_atHead? hHead _ hForm)
      rw [hAfter] at hHead
      rw [blankLength_of_atHead? hHead,
        blankLength_of_atHead? hAlone]
      omega

end Reference

------------------------------------------------------------
-- Words
------------------------------------------------------------

namespace Template

/- A word stands for the text of its atoms. -/
theorem filled?_ofWord
    (env : Environment)
    (word : Text) :
    (ofWord word).filled? env =
      some (Atom.textOf env
        (Reference.atoms .fill (Word.unquote word))) :=
  (denotes_resolve .fill (Word.unquote word)).filled?_eq env

/-
  A run in double quotes and what follows it have the value
  of the two side by side, whatever the environment, exactly
  if no reference starts in the run and ends behind it.
-/
theorem ofWord_append_iff
    {text : Text}
    (h : Word.fitsInDouble text = true)
    (rest : Text) :
    let run := Word.doubleQuoted text
    (∀ env, ∃ a b,
      (ofWord run).filled? env = some a ∧
      (ofWord rest).filled? env = some b ∧
      (ofWord (run ++ rest)).filled? env = some (a ++ b)) ↔
    Reference.crosses (Word.unquote run) (Word.unquote rest) =
      false := by
  intro run
  have hUnquote := Word.unquote_doubleQuoted_append h rest
  constructor
  · intro hAll
    refine Bool.eq_false_iff.mpr fun hCrosses => ?_
    have hLess := Reference.blankLength_lt_of_crosses hCrosses
      (Word.isReferenceForm_unquoteFrom .none run)
    rcases hAll .blank with ⟨a, b, hRun, hRest, hBoth⟩
    rw [filled?_ofWord, Option.some.injEq] at hRun hRest hBoth
    rw [hUnquote] at hBoth
    have hLength := congrArg List.length hBoth
    rw [← hRun, ← hRest, List.length_append] at hLength
    exact Nat.ne_of_lt hLess hLength
  · intro hCrosses env
    refine ⟨_, _, filled?_ofWord env run, filled?_ofWord env rest,
      ?_⟩
    rw [filled?_ofWord, hUnquote,
      Reference.atoms_append_of_not_crosses .fill hCrosses,
      Atom.textOf_append]

/- A run that ends in a reference with braces, before a name. -/
theorem ofWord_append_iff_of_braces :
    let text : Text := "a\\\x22$\x7bx\x7d"
    let rest : Text := "y$?"
    let run := Word.doubleQuoted text
    Word.fitsInDouble text = true ∧
    Reference.crosses (Word.unquote run) (Word.unquote rest) =
      false ∧
    ∀ env, ∃ a b,
      (ofWord run).filled? env = some a ∧
      (ofWord rest).filled? env = some b ∧
      (ofWord (run ++ rest)).filled? env = some (a ++ b) := by
  intro text rest run
  have hText : Word.fitsInDouble text = true := by
    decide +kernel
  have hCrosses : Reference.crosses (Word.unquote run)
      (Word.unquote rest) = false := by
    decide +kernel
  exact ⟨hText, hCrosses,
    (ofWord_append_iff hText rest).mpr hCrosses⟩

/-
  The name in a run goes on behind the closing quote, and
  the word has the value of another variable.
-/
theorem ofWord_append_ne :
    let env : Environment :=
      ⟨fun name => if name = ['x'] then some ['1'] else
        if name = ['x', 'y'] then some ['2'] else none, 0, 0⟩
    let run := Word.doubleQuoted "$x"
    Word.fitsInDouble "$x" = true ∧
    (ofWord run).filled? env = some ['1'] ∧
    (ofWord "y").filled? env = some ['y'] ∧
    (ofWord (run ++ "y")).filled? env = some ['2'] ∧
    (['2'] : Text) ≠ ['1'] ++ ['y'] := by
  repeat rw [Text.ofString_ofList]
  decide +kernel

end Template

end ShellToC
