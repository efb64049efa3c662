import ShellToC.Proofs.References
import ShellToC.Proofs.TextParts
import ShellToC.Script.Form

/-
  This file says how the patterns split the texts that they
  accept: into what they single out, and what is put around
  it.  A statement of a known form is split by the rule that
  gave it this form.

  Key definitions include:
    * `Form.IsFoundIn`

  Main declarations:
    * `Pattern.exists_of_keyword?`
    * `Pattern.exists_of_restOfLine?`
    * `Pattern.exists_of_enclosed?`
    * `Pattern.exists_of_backgrounded?`
    * `Form.exists_rule`
    * `Form.isFoundIn_of_mem_rules`
    * `Form.stages?_of_ofText`
    * `Form.backgrounded?_of_ofText`
    * `Form.exists_of_captureAssign`
-/

namespace ShellToC

namespace Pattern

------------------------------------------------------------
-- Text after a Keyword
------------------------------------------------------------

theorem exists_of_keyword?
    {α : Type}
    {keyword text : Text}
    {after : Text → Option α}
    {found : α}
    (h : keyword? keyword after text = some found) :
    ∃ rest, text = keyword ++ rest ∧
      after rest = some found := by
  rcases Option.bind_eq_some_iff.mp h with ⟨rest, hLead, hAfter⟩
  exact ⟨rest, Text.dropLead?_eq_some_iff.mp hLead, hAfter⟩

theorem cases_of_optional?
    {α : Type}
    {text : Text}
    {after : Text → Option α}
    {found : Option α}
    (h : optional? after text = some found) :
    text = [] ∧ found = none ∨
      ∃ x, found = some x ∧ after text = some x := by
  rw [optional?] at h
  split at h
  next hNil =>
    cases h
    exact Or.inl ⟨List.isEmpty_iff.mp hNil, rfl⟩
  next =>
    rcases Option.map_eq_some_iff.mp h with ⟨x, hAfter, rfl⟩
    exact Or.inr ⟨x, rfl, hAfter⟩

/- Trimming takes away at least one blank where there is one. -/
theorem exists_of_startsBlank
    {text : Text}
    (h : startsBlank text = true) :
    ∃ blanks, blanks ≠ [] ∧ blanks.all Text.isBlank = true ∧
      text = blanks ++ Text.trimStart text := by
  rcases Text.trimStart_split text with ⟨blanks, hBlanks, hText⟩
  refine ⟨blanks, ?_, hBlanks, hText⟩
  rintro rfl
  have hHead := Text.head?_trimStart text
  rw [List.nil_append] at hText
  rw [← hText] at hHead
  rw [startsBlank] at h
  cases hFirst : text.head? with
  | none => simp [hFirst] at h
  | some c =>
      rw [hFirst, Option.any_some] at h
      simp [hFirst, h] at hHead

theorem exists_of_restOfLine?
    {text rest : Text}
    (h : restOfLine? text = some rest) :
    ∃ blanks, blanks ≠ [] ∧ blanks.all Text.isBlank = true ∧
      text = blanks ++ rest := by
  rw [restOfLine?] at h
  split at h
  next hText =>
    cases h
    rw [Bool.and_eq_true] at hText
    exact exists_of_startsBlank hText.1
  next => contradiction

/- Where only blanks are left, they split into blanks and the last one. -/
theorem exists_of_someRestOfLine?
    {text rest : Text}
    (h : someRestOfLine? text = some rest) :
    ∃ blanks, blanks.all Text.isBlank = true ∧
      text = blanks ++ rest := by
  rcases Option.bind_eq_some_iff.mp h with ⟨line, hLine, hRest⟩
  rcases exists_of_restOfLine? hLine with
    ⟨blanks, -, hBlanks, hText⟩
  split at hRest
  next =>
    cases hRest
    exact ⟨blanks, hBlanks, hText⟩
  next hNil =>
    rw [ne_eq, Classical.not_not] at hNil
    rw [hNil, List.append_nil] at hText
    split at hRest
    next last other init hReverse =>
      split at hRest
      · cases hRest
        have hSplit := congrArg List.reverse hReverse
        rw [List.reverse_reverse, List.reverse_cons] at hSplit
        refine ⟨(other :: init).reverse, ?_, hSplit⟩
        rw [← hText, hSplit, List.all_append,
          Bool.and_eq_true] at hBlanks
        exact hBlanks.1
      · contradiction
    next => contradiction

------------------------------------------------------------
-- Assignments and Enclosed Text
------------------------------------------------------------

theorem exists_of_assignment?
    {text name value : Text}
    (h : assignment? text = some (name, value)) :
    text = name ++ '=' :: value ∧ Text.isName name = true := by
  unfold assignment? at h
  split at h
  next name' value' hName =>
    cases h
    have hSplit := name?_eq_some_iff.mp hName
    exact ⟨hSplit.1, hSplit.2.1⟩
  next => contradiction

/- A double quote that may be left out. -/
def optionalQuote : List Text :=
  [[], ['\x22']]

theorem exists_of_enclosed?
    {opening closing text inner : Text}
    (h : enclosed? opening closing text = some inner) :
    ∃ first ∈ optionalQuote, ∃ last ∈ optionalQuote,
      text = first ++ opening ++ (inner ++ (closing ++ last)) := by
  rcases Option.bind_eq_some_iff.mp h with ⟨rest, hLead, hTail⟩
  have hRest := Text.dropLead?_eq_some_iff.mp hLead
  have hFirst : ∃ first ∈ optionalQuote,
      text = first ++ dropDoubleQuote text := by
    unfold dropDoubleQuote
    split
    · exact ⟨['\x22'], by simp [optionalQuote], rfl⟩
    · exact ⟨[], by simp [optionalQuote], rfl⟩
  rcases hFirst with ⟨first, hFirst, hText⟩
  refine ⟨first, hFirst, ?_⟩
  rw [hRest] at hText
  rw [Option.or_eq_some_iff] at hTail
  rcases hTail with hTail | ⟨-, hTail⟩
  · refine ⟨[], by simp [optionalQuote], ?_⟩
    rw [hText, Text.dropTail?_eq_some_iff.mp hTail]
    simp
  · refine ⟨['\x22'], by simp [optionalQuote], ?_⟩
    rw [hText, Text.dropTail?_eq_some_iff.mp hTail]
    simp

/- A command with an ampersand behind it that does not end with one. -/
theorem exists_of_backgrounded?
    {text command : Text}
    (h : backgrounded? text = some command) :
    ∃ blanks, blanks.all Text.isBlank = true ∧
      text = command ++ (blanks ++ ['&']) ∧
        command.getLast? ≠ some '&' := by
  rcases Option.bind_eq_some_iff.mp h with ⟨rest, hTail, hRest⟩
  rw [Text.dropTail?_eq_some_iff, Text.ofString_ofList] at hTail
  rcases Text.trimEnd_split rest with ⟨blanks, hBlanks, hSplit⟩
  simp only at hRest
  split at hRest
  next hCommand =>
    cases hRest
    simp only [Bool.and_eq_true, bne_iff_ne] at hCommand
    refine ⟨blanks, hBlanks, ?_, hCommand.1.2⟩
    rw [hTail, ← List.append_assoc, ← hSplit]
  next => contradiction

end Pattern

------------------------------------------------------------
-- Rules of Forms
------------------------------------------------------------

namespace Form

/- A statement that is known and no comment has its form by a rule. -/
theorem exists_rule
    {text : Text}
    (hComment : ofText text ≠ .comment)
    (hKnown : ofText text ≠ .unsupported) :
    ∃ rule ∈ rules, rule text = some (ofText text) := by
  rw [ofText] at hComment hKnown ⊢
  split at hComment
  next => contradiction
  next hText =>
    rw [if_neg hText] at hKnown ⊢
    cases hFound : rules.findSome? (· text) with
    | none => simp [hFound] at hKnown
    | some form =>
        rcases List.exists_of_findSome?_eq_some hFound with
          ⟨rule, hRule, hForm⟩
        exact ⟨rule, hRule, hForm⟩

/- What a rule has found in the text if it gives the form. -/
def IsFoundIn
    (text : Text) : Form → Prop
  | .pipeline stages => Pipeline.stages? text = some stages
  | .background command =>
      Pattern.backgrounded? text = some command
  | .captureAssign name command => ∃ value,
      Pattern.assignment? text = some (name, value) ∧
      (Pattern.parenthesised? value = some command ∨
        Pattern.backticked? value = some command)
  | .echo args =>
      Pattern.keyword? "echo"
        (Pattern.optional? Pattern.restOfLine?) text = some args
  | .arithAssign name expr => ∃ value,
      Pattern.assignment? text = some (name, value) ∧
      Pattern.arithmetic? value = some expr
  | .arithPrint expr => ∃ rest, text = "echo" ++ rest ∧
      Pattern.arithmetic? (Text.trimStart rest) = some expr
  | .test expr => testExpression? text = some expr
  | .changeDir dir =>
      Pattern.keyword? "cd"
        (Pattern.optional? Pattern.someRestOfLine?) text = some dir
  | .exit code =>
      Pattern.keyword? "exit"
        (Pattern.optional? Pattern.solidRest?) text = some code
  | _ => True

/- A form that is made of what a pattern gives. -/
theorem isFoundIn_of_map
    {α : Type}
    {found : Option α}
    {make : α → Form}
    {text : Text}
    {form : Form}
    (h : found.map make = some form)
    (hMake : ∀ a, found = some a → IsFoundIn text (make a)) :
    IsFoundIn text form := by
  rcases Option.map_eq_some_iff.mp h with ⟨a, ha, rfl⟩
  exact hMake a ha

/- A form that is found behind what a pattern gives. -/
theorem isFoundIn_of_bind
    {α : Type}
    {found : Option α}
    {make : α → Option Form}
    {text : Text}
    {form : Form}
    (h : found.bind make = some form)
    (hMake : ∀ a, found = some a → make a = some form →
      IsFoundIn text form) :
    IsFoundIn text form := by
  rcases Option.bind_eq_some_iff.mp h with ⟨a, ha, hForm⟩
  exact hMake a ha hForm

/- A keyword that stands alone is found as the form it is given. -/
theorem isFoundIn_of_lone
    {keyword text : Text}
    {known form : Form}
    (h : lone? keyword known text = some form)
    (hKnown : IsFoundIn text known) :
    IsFoundIn text form := by
  unfold lone? at h
  split at h
  · cases h
    exact hKnown
  · contradiction

/- Each rule finds what its form says. -/
theorem isFoundIn_of_mem_rules
    {rule : Text → Option Form}
    (hRule : rule ∈ rules)
    {text : Text}
    {form : Form}
    (h : rule text = some form) :
    IsFoundIn text form := by
  simp only [rules, List.mem_cons, List.not_mem_nil,
    or_false] at hRule
  rcases hRule with rfl | rfl | rfl | rfl | rfl | rfl | rfl | rfl |
    rfl | rfl | rfl | rfl | rfl | rfl | rfl | rfl | rfl | rfl |
    rfl | rfl | rfl | rfl
  · exact isFoundIn_of_map h fun _ hStages => hStages
  · unfold echo? at h
    split at h
    · contradiction
    · exact isFoundIn_of_map h fun _ hArgs => hArgs
  · refine isFoundIn_of_bind h fun (_, value) hValue hForm => ?_
    exact isFoundIn_of_map hForm fun _ hExpr =>
      ⟨value, hValue, hExpr⟩
  · refine isFoundIn_of_bind h fun (_, value) hValue hForm => ?_
    exact isFoundIn_of_map hForm fun _ hCommand =>
      ⟨value, hValue, .inl hCommand⟩
  · refine isFoundIn_of_bind h fun (_, value) hValue hForm => ?_
    exact isFoundIn_of_map hForm fun _ hCommand =>
      ⟨value, hValue, .inr hCommand⟩
  · refine isFoundIn_of_map h fun _ hEcho => ?_
    rcases Pattern.exists_of_keyword? hEcho with
      ⟨rest, hText, hExpr⟩
    split at hExpr
    · exact ⟨rest, hText, hExpr⟩
    · contradiction
  · exact isFoundIn_of_map h fun _ hExpr => hExpr
  · exact isFoundIn_of_map h fun _ hDir => hDir
  · exact isFoundIn_of_map h fun _ _ => trivial
  · exact isFoundIn_of_map h fun _ _ => trivial
  · exact isFoundIn_of_map h fun _ _ => trivial
  · exact isFoundIn_of_lone h trivial
  · exact isFoundIn_of_lone h trivial
  · exact isFoundIn_of_lone h trivial
  · exact isFoundIn_of_lone h trivial
  · refine isFoundIn_of_bind h fun rest _ hForm => ?_
    split at hForm
    · refine isFoundIn_of_bind hForm fun _ _ hItems => ?_
      exact isFoundIn_of_map hItems fun _ _ => trivial
    · contradiction
  · exact isFoundIn_of_lone h trivial
  · exact isFoundIn_of_map h fun _ hCode => hCode
  · exact isFoundIn_of_map h fun _ hCommand => hCommand
  · refine isFoundIn_of_bind h fun (_, value) _ hForm => ?_
    dsimp only at hForm
    split at hForm
    · cases hForm
      trivial
    · contradiction
  · rcases List.exists_of_findSome?_eq_some h with
      ⟨command, _, hForm⟩
    exact isFoundIn_of_map hForm fun _ _ => trivial
  · unfold varPrint? at h
    split at h
    · cases h
      trivial
    · contradiction

theorem exists_rule_of_ofText
    {text : Text}
    {form : Form}
    (h : ofText text = form)
    (hComment : form ≠ .comment)
    (hKnown : form ≠ .unsupported) :
    ∃ rule ∈ rules, rule text = some form := by
  subst h
  exact exists_rule hComment hKnown

/- A pipeline has stages. -/
theorem stages?_of_ofText
    {text : Text}
    {stages : List Text}
    (h : ofText text = .pipeline stages) :
    Pipeline.stages? text = some stages := by
  rcases exists_rule_of_ofText h (by simp) (by simp) with
    ⟨rule, hRule, hForm⟩
  exact isFoundIn_of_mem_rules hRule hForm

/- A job is what stands before a final ampersand. -/
theorem backgrounded?_of_ofText
    {text command : Text}
    (h : ofText text = .background command) :
    Pattern.backgrounded? text = some command := by
  rcases exists_rule_of_ofText h (by simp) (by simp) with
    ⟨rule, hRule, hForm⟩
  exact isFoundIn_of_mem_rules hRule hForm

/- What is captured is the command of a substitution. -/
theorem exists_of_captureAssign
    {text name command : Text}
    (h : ofText text = .captureAssign name command) :
    ∃ value, Pattern.assignment? text = some (name, value) ∧
      (Pattern.parenthesised? value = some command ∨
        Pattern.backticked? value = some command) := by
  rcases exists_rule_of_ofText h (by simp) (by simp) with
    ⟨rule, hRule, hForm⟩
  exact isFoundIn_of_mem_rules hRule hForm

end Form

end ShellToC
