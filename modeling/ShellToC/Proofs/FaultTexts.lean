import ShellToC.Lowering.Command
import ShellToC.Proofs.Numeral
import ShellToC.Proofs.QuotingStep

/-
  This file says what the faults inside of statements are: a
  construct or an operator that C does not have.  What such a
  fault shows is on one line if the text that was read is.

  Every reader is opened once for this, and what is said of
  its faults elsewhere follows.

  Key definitions include:
    * `Fault.IsInside`
    * `Fault.StaysInside`

  Main declarations:
    * `Condition.staysInside_ofText`
    * `ArithExpr.staysInside_ofText`
    * `Event.staysInside_echo`
    * `Event.staysInside_directory`
    * `Event.staysInside_exitCode`
-/

namespace ShellToC

------------------------------------------------------------
-- Texts on One Line
------------------------------------------------------------

namespace Text

@[simp] theorem onOneLine_append
    (a b : Text) :
    onOneLine (a ++ b) = (onOneLine a && onOneLine b) :=
  List.all_append

@[simp] theorem onOneLine_ofString
    (s : String) :
    onOneLine (ofString s) = s.toList.all (· != '\n') := by
  rw [ofString_eq, onOneLine]

@[simp] theorem onOneLine_ofNat
    (n : Nat) :
    onOneLine (ofNat n) = true := by
  rw [onOneLine, List.all_eq_true]
  intro c hc
  have hDigit := List.all_eq_true.mp (all_isDigit_ofNat n) c hc
  rw [bne_iff_ne]
  rintro rfl
  contradiction

/- What is made of the characters of a line is on one line. -/
theorem onOneLine_of_subset
    {part text : Text}
    (hPart : part ⊆ text)
    (hText : text.onOneLine = true) :
    part.onOneLine = true := by
  rw [onOneLine, List.all_eq_true] at hText ⊢
  intro c hc
  exact hText c (hPart hc)

end Text

------------------------------------------------------------
-- Faults inside of Texts
------------------------------------------------------------

namespace Fault

/-
  A fault that is found inside of a text: it is one of a
  construct or of an operator, and it shows no line feed that
  is not in the text.
-/
def IsInside
    (text : Text)
    (fault : Fault) : Prop :=
  ∃ what, (fault = .construct what ∨ fault = .operator what) ∧
    (text.onOneLine = true → what.onOneLine = true)

theorem IsInside.mono
    {a b : Text}
    {fault : Fault}
    (h : fault.IsInside a)
    (hSubset : a ⊆ b) :
    fault.IsInside b := by
  rcases h with ⟨what, hFault, hLine⟩
  refine ⟨what, hFault, ?_⟩
  intro hb
  exact hLine (Text.onOneLine_of_subset hSubset hb)

/- The message of such a fault is on one line if the text is. -/
theorem IsInside.onOneLine_message
    {text : Text}
    {fault : Fault}
    (h : fault.IsInside text)
    (hText : text.onOneLine = true) :
    fault.message.onOneLine = true := by
  rcases h with ⟨what, rfl | rfl, hLine⟩
  · simp [message, hLine hText]
  · simp [message, hLine hText]

/- Whatever is read, a fault in it is found inside of the text. -/
def StaysInside
    {α : Type}
    (text : Text)
    (result : Except Fault α) : Prop :=
  ∀ fault, result = .error fault → fault.IsInside text

section Results

variable {α β : Type}
variable {text : Text}

theorem staysInside_ok
    (value : α) :
    StaysInside text (.ok value) := by
  intro fault hFault
  cases hFault

theorem staysInside_error
    {fault : Fault}
    (h : fault.IsInside text) :
    StaysInside text (.error fault : Except Fault α) := by
  intro other hOther
  cases hOther
  exact h

theorem staysInside_construct
    {what : Text}
    (h : text.onOneLine = true → what.onOneLine = true) :
    StaysInside text (.error (.construct what) : Except Fault α) :=
  staysInside_error ⟨what, Or.inl rfl, h⟩

theorem staysInside_operator
    {op : Text}
    (h : text.onOneLine = true → op.onOneLine = true) :
    StaysInside text (.error (.operator op) : Except Fault α) :=
  staysInside_error ⟨op, Or.inr rfl, h⟩

variable {result : Except Fault α}

theorem StaysInside.mono
    (h : StaysInside text result)
    {whole : Text}
    (hSubset : text ⊆ whole) :
    StaysInside whole result :=
  fun fault hFault => (h fault hFault).mono hSubset

theorem StaysInside.bind
    (h : StaysInside text result)
    {f : α → Except Fault β}
    (hf : ∀ value, StaysInside text (f value)) :
    StaysInside text (result.bind f) := by
  cases result with
  | error fault => exact staysInside_error (h fault rfl)
  | ok value => exact hf value

theorem StaysInside.map
    (h : StaysInside text result)
    (f : α → β) :
    StaysInside text (result.map f) := by
  cases result with
  | error fault => exact staysInside_error (h fault rfl)
  | ok value => exact staysInside_ok (f value)

end Results

end Fault

open Fault

------------------------------------------------------------
-- Tests
------------------------------------------------------------

theorem Operand.staysInside_ofWord
    (word : Text) :
    StaysInside word (ofWord word) := by
  unfold ofWord
  split
  · exact staysInside_ok _
  split
  · exact staysInside_ok _
  · apply staysInside_construct
    intro hWord
    simp [hWord]

theorem Comparison.staysInside_ofWords
    (comparison : Comparison)
    (left right : Text) :
    StaysInside (left ++ right)
      (comparison.ofWords left right) := by
  unfold ofWords
  split
  next hFault =>
    exact staysInside_error
      ((Operand.staysInside_ofWord left _ hFault).mono
        (List.subset_append_left left right))
  next hFault =>
    exact staysInside_error
      ((Operand.staysInside_ofWord right _ hFault).mono
        (List.subset_append_right left right))
  next => exact staysInside_ok _

namespace Condition

theorem staysInside_unary
    (op : Text)
    (operand : Operand) :
    StaysInside op (unary op operand) := by
  unfold unary
  repeat'
    split
    · exact staysInside_ok _
  exact staysInside_operator id

theorem staysInside_ofWords
    (words : List Text) :
    StaysInside words.flatten (ofWords words) := by
  fun_induction ofWords words with
  | case1 => exact staysInside_construct fun _ => by simp
  | case2 word =>
      exact ((Operand.staysInside_ofWord word).map _).mono
        (by simp)
  | case3 first rest _ result hResult =>
      unfold Comparison.ofWords? at hResult
      split at hResult
      next left op right hWords =>
        rcases Option.map_eq_some_iff.mp hResult with
          ⟨comparison, _, rfl⟩
        rw [hWords]
        apply (comparison.staysInside_ofWords left right).mono
        simp
      next => contradiction
  | case4 rest _ _ ih =>
      exact (ih.map _).mono (by simp)
  | case5 first _ word =>
      have hWord := (Operand.staysInside_ofWord word).mono
        (List.subset_append_right first word)
      have hUnary (operand : Operand) :=
        (staysInside_unary first operand).mono
          (List.subset_append_left first word)
      exact (hWord.bind hUnary).mono (by simp)
  | case6 first _ op last =>
      apply staysInside_operator
      apply Text.onOneLine_of_subset
      simp
  | case7 => exact staysInside_construct fun _ => by simp

/- The words of a text are made of its characters. -/
theorem staysInside_ofText
    (expr : Text) :
    StaysInside expr (ofText expr) := by
  apply (staysInside_ofWords (Word.split expr)).mono
  intro c hc
  rcases List.mem_flatten.mp hc with ⟨word, hWord, hc⟩
  exact Word.mem_of_mem_split hWord hc

end Condition

------------------------------------------------------------
-- Arithmetic
------------------------------------------------------------

namespace Token

theorem staysInside_readReference
    (text : Text) :
    StaysInside text (readReference text) := by
  unfold readReference
  split
  next rest =>
    simp only [readBraced]
    split
    · exact staysInside_ok _
    · apply staysInside_construct
      intro hText
      have hName : Text.onOneLine
          (rest.takeWhile (· != '\x7d')) = true :=
        Text.onOneLine_of_subset (fun _ hc =>
          List.mem_cons_of_mem _
            ((List.takeWhile_sublist _).subset hc)) hText
      simp [hName]
  · exact staysInside_ok _
  · exact staysInside_ok _
  · split
    · exact staysInside_ok _
    · exact staysInside_operator fun _ => by simp

theorem staysInside_readOperator
    (c : Char)
    (rest : Text) :
    StaysInside (c :: rest) (readOperator c rest) := by
  unfold readOperator
  split
  · split
    · exact staysInside_operator fun _ => by simp
    · exact staysInside_ok _
  · apply staysInside_operator
    exact Text.onOneLine_of_subset
      (List.takeWhile_sublist _).subset

theorem staysInside_read
    (c : Char)
    (rest : Text) :
    StaysInside (c :: rest) (read c rest) := by
  unfold read
  split
  · exact staysInside_ok _
  split
  · exact (staysInside_readReference rest).mono
      (List.subset_cons_self c rest)
  repeat'
    split
    · exact staysInside_ok _
  exact staysInside_readOperator c rest

theorem staysInside_ofText
    (text : Text) :
    StaysInside text (ofText text) := by
  fun_induction ofText text with
  | case1 => exact staysInside_ok _
  | case2 c rest fault hRead =>
      exact staysInside_error (staysInside_read c rest _ hRead)
  | case3 c rest token after hRead ih =>
      have hAfter : after ⊆ c :: rest :=
        ((suffix_of_read hRead).trans
          (List.suffix_cons c rest)).subset
      exact (ih.map _).mono hAfter

end Token

theorem ArithExpr.staysInside_ofText
    (text : Text) :
    StaysInside text (ofText text) := by
  unfold ofText
  split
  next hFault =>
    exact staysInside_error (Token.staysInside_ofText text _ hFault)
  next => exact staysInside_construct fun _ => by simp
  next => exact staysInside_ok _

------------------------------------------------------------
-- Commands
------------------------------------------------------------

namespace Event

theorem staysInside_echo
    (args : Text) :
    StaysInside args (echo args) := by
  have hFault {what : Text} (hWhat : what.onOneLine = true) :
      StaysInside args (.error (echoFault what args) :
        Except Fault (List Event)) := by
    apply staysInside_construct
    intro hArgs
    simp [hWhat, hArgs]
  unfold echo
  split
  · exact hFault (by simp)
  split
  · exact hFault (by simp)
  split
  · exact hFault (by simp)
  split
  · exact staysInside_ok _
  split
  · exact staysInside_ok _
  · exact staysInside_ok _

theorem staysInside_directory
    (dir : Option Text) :
    StaysInside (dir.getD []) (directory dir) := by
  unfold directory
  split
  · exact staysInside_ok _
  next dir =>
    split
    · exact staysInside_ok _
    · apply staysInside_construct
      intro hDir
      simpa using hDir

theorem staysInside_exitCode
    (code : Option Text) :
    StaysInside (code.getD []) (exitCode code) := by
  cases code with
  | none => exact staysInside_ok _
  | some word => exact (Operand.staysInside_ofWord word).map _

end Event

end ShellToC
