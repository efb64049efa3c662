import ShellToC.Text.Basic

/-
  This file is about the parts of texts: what a text leads
  and ends with, what trimming leaves of it, what occurs in
  it, and how many bytes it takes.

  Key definitions include:
    * `Text.IsTrimmed`
    * `Text.byteSize`

  Main declarations:
    * `Text.dropLead?_eq_some_iff`
    * `Text.dropTail?_eq_some_iff`
    * `Text.trim_split`
    * `Text.isTrimmed_trim`
    * `Text.trim_of_isTrimmed`
    * `Text.occursIn_iff`
-/

namespace ShellToC

namespace Text

------------------------------------------------------------
-- Leads
------------------------------------------------------------

/- A lead is dropped from a text that is the lead and the rest. -/
theorem dropLead?_eq_some_iff
    {lead text rest : Text} :
    dropLead? lead text = some rest ↔ text = lead ++ rest := by
  induction lead generalizing text with
  | nil => exact Option.some_inj
  | cons c lead ih =>
      cases text with
      | nil =>
          have hNone : dropLead? (c :: lead) [] = none := rfl
          simp [hNone]
      | cons d text =>
          have hStep : dropLead? (c :: lead) (d :: text) =
              if c == d then dropLead? lead text else none := rfl
          rw [hStep]
          by_cases hc : c = d
          · simp [hc, ih]
          · simp [hc, Ne.symm hc]

/- A tail is dropped from a text that is the rest and the tail. -/
theorem dropTail?_eq_some_iff
    {tail text rest : Text} :
    dropTail? tail text = some rest ↔ text = rest ++ tail := by
  have hLead := @dropLead?_eq_some_iff tail.reverse text.reverse
  constructor
  · intro h
    rcases Option.map_eq_some_iff.mp h with ⟨lead, hRest, rfl⟩
    have hText := hLead.mp hRest
    rw [← List.reverse_reverse text, hText]
    simp
  · rintro rfl
    have hRest := (@dropLead?_eq_some_iff tail.reverse
      (rest ++ tail).reverse rest.reverse).mpr (by simp)
    refine Option.map_eq_some_iff.mpr ⟨_, hRest, ?_⟩
    simp

------------------------------------------------------------
-- Trimmed Texts
------------------------------------------------------------

/- A text is trimmed if it neither starts nor ends with a blank. -/
structure IsTrimmed
    (text : Text) : Prop where
  head : text.head?.all (! isBlank ·) = true
  last : text.getLast?.all (! isBlank ·) = true

/- What is trimmed from the start. -/
theorem trimStart_split
    (text : Text) :
    ∃ lead, lead.all isBlank = true ∧
      text = lead ++ trimStart text :=
  ⟨text.takeWhile isBlank, by simp,
    (List.takeWhile_append_dropWhile).symm⟩

/- What is trimmed from the end. -/
theorem trimEnd_split
    (text : Text) :
    ∃ tail, tail.all isBlank = true ∧
      text = trimEnd text ++ tail := by
  rcases trimStart_split text.reverse with
    ⟨lead, hLead, hText⟩
  refine ⟨lead.reverse, by simpa using hLead, ?_⟩
  rw [trimEnd, ← List.reverse_append, ← trimStart, ← hText,
    List.reverse_reverse]

/- What is trimmed from both sides. -/
theorem trim_split
    (text : Text) :
    ∃ lead tail, lead.all isBlank = true ∧
      tail.all isBlank = true ∧
        text = lead ++ (trim text ++ tail) := by
  rcases trimStart_split text with ⟨lead, hLead, hText⟩
  rcases trimEnd_split (trimStart text) with
    ⟨tail, hTail, hRest⟩
  refine ⟨lead, tail, hLead, hTail, ?_⟩
  rw [trim, ← hRest, ← hText]

theorem head?_trimStart
    (text : Text) :
    (trimStart text).head?.all (! isBlank ·) = true := by
  rw [trimStart]
  have hHead := List.head?_dropWhile_not isBlank text
  cases h : (text.dropWhile isBlank).head? <;> simp_all

theorem trimStart_of_head?
    {text : Text}
    (h : text.head?.all (! isBlank ·) = true) :
    trimStart text = text := by
  cases text with
  | nil => rfl
  | cons c rest => simp_all [trimStart]

theorem getLast?_trimEnd
    (text : Text) :
    (trimEnd text).getLast?.all (! isBlank ·) = true := by
  rw [trimEnd, List.getLast?_reverse]
  exact head?_trimStart text.reverse

theorem trimEnd_of_getLast?
    {text : Text}
    (h : text.getLast?.all (! isBlank ·) = true) :
    trimEnd text = text := by
  rw [List.getLast?_eq_head?_reverse] at h
  rw [trimEnd, ← trimStart, trimStart_of_head? h,
    List.reverse_reverse]

/- A text without leading blanks keeps its first character. -/
theorem head?_trimEnd
    {text : Text}
    (h : text.head?.all (! isBlank ·) = true) :
    (trimEnd text).head?.all (! isBlank ·) = true := by
  rcases trimEnd_split text with ⟨tail, -, hText⟩
  cases hTrim : trimEnd text with
  | nil => rfl
  | cons c rest =>
      rw [hTrim] at hText
      rw [hText] at h
      exact h

/- Trimming makes a text trimmed, and leaves a trimmed one as it is. -/
theorem isTrimmed_trim
    (text : Text) :
    IsTrimmed (trim text) where
  head := head?_trimEnd (head?_trimStart text)
  last := getLast?_trimEnd _

theorem trim_of_isTrimmed
    {text : Text}
    (h : IsTrimmed text) :
    trim text = text := by
  rw [trim, trimStart_of_head? h.head,
    trimEnd_of_getLast? h.last]

/- Nothing is left of a blank text. -/
theorem trim_of_isAllBlank
    {text : Text}
    (h : text.isAllBlank = true) :
    trim text = [] := by
  have hStart : trimStart (text ++ []) = trimStart [] :=
    List.dropWhile_append_of_pos (List.all_eq_true.mp h)
  rw [List.append_nil] at hStart
  rw [trim, hStart]
  rfl

/- A text without blanks is trimmed. -/
theorem isTrimmed_of_all
    {text : Text}
    (h : text.all (! isBlank ·) = true) :
    text.IsTrimmed := by
  rw [List.all_eq_true] at h
  constructor
  · cases hHead : text.head? with
    | none => rfl
    | some c => exact h c (List.mem_of_head? hHead)
  · cases hLast : text.getLast? with
    | none => rfl
    | some c => exact h c (List.mem_of_getLast? hLast)

/- The end of a trimmed text is trimmed when its blanks are cut off. -/
theorem IsTrimmed.trimStart_tail
    {lead tail : Text}
    (h : (lead ++ tail).IsTrimmed)
    (hTail : tail ≠ []) :
    trimStart tail ≠ [] ∧ (trimStart tail).IsTrimmed := by
  rcases trimStart_split tail with ⟨blanks, hBlanks, hSplit⟩
  have hLast : (blanks ++ trimStart tail).getLast?.all
      (! isBlank ·) = true := by
    have hLast := h.last
    rw [List.getLast?_append, List.getLast?_eq_some_getLast hTail,
      Option.some_or, ← List.getLast?_eq_some_getLast hTail] at hLast
    rwa [← hSplit]
  have hNe : trimStart tail ≠ [] := by
    intro hNil
    rw [hNil, List.append_nil] at hLast hSplit
    subst hSplit
    rw [List.getLast?_eq_some_getLast hTail] at hLast
    have hBlank := List.all_eq_true.mp hBlanks _
      (List.getLast_mem hTail)
    simp [hBlank] at hLast
  refine ⟨hNe, head?_trimStart tail, ?_⟩
  rwa [List.getLast?_append,
    List.getLast?_eq_some_getLast hNe, Option.some_or,
    ← List.getLast?_eq_some_getLast hNe] at hLast

------------------------------------------------------------
-- Occurrences
------------------------------------------------------------

/- A part occurs in a text if the text goes on before and behind it. -/
theorem occursIn_iff
    {part text : Text} :
    occursIn part text = true ↔ part <:+: text := by
  induction text with
  | nil => simp [occursIn]
  | cons c rest ih =>
      rw [occursIn, Bool.or_eq_true, ih,
        List.isPrefixOf_iff_prefix, List.infix_cons_iff]

/- What does not start the part may be left out before the text. -/
theorem occursIn_cons
    {c d : Char}
    (h : c ≠ d)
    (part rest : Text) :
    occursIn (d :: part) (c :: rest) =
      occursIn (d :: part) rest := by
  simp [occursIn, List.isPrefixOf, Ne.symm h]

/- What does not occur in the part may be left out behind the text. -/
theorem occursIn_concat
    {part : Text}
    (hPart : part ≠ [])
    {c : Char}
    (hc : c ∉ part)
    (text : Text) :
    occursIn part (text ++ [c]) = occursIn part text := by
  rw [Bool.eq_iff_iff, occursIn_iff, occursIn_iff]
  constructor
  · rintro ⟨before, after, hText⟩
    rcases List.eq_nil_or_concat after with rfl | ⟨rest, d, rfl⟩
    · have hLast : part.getLast? = some c := by
        have := congrArg List.getLast? hText
        simpa [List.getLast?_append,
          List.getLast?_eq_some_getLast hPart] using this
      exact absurd (List.mem_of_getLast? hLast) hc
    · refine ⟨before, rest, ?_⟩
      have hInit := congrArg List.dropLast hText
      simpa [← List.append_assoc] using hInit
  · intro h
    exact h.trans (List.prefix_append _ _).isInfix

/- What holds a part also holds what the part starts with. -/
theorem occursIn_of_isPrefix
    {lead part text : Text}
    (hLead : lead <+: part)
    (h : occursIn lead text = false) :
    occursIn part text = false := by
  rw [Bool.eq_false_iff, Ne, occursIn_iff] at h ⊢
  exact fun hPart => h (hLead.isInfix.trans hPart)

------------------------------------------------------------
-- Bytes
------------------------------------------------------------

/- The number of bytes that a text takes in UTF-8. -/
def byteSize
    (text : Text) : Nat :=
  (String.ofList text).utf8ByteSize

@[simp] theorem byteSize_nil : byteSize [] = 0 := by
  rw [byteSize, String.ofList_nil]
  rfl

@[simp] theorem byteSize_cons
    (c : Char)
    (rest : Text) :
    byteSize (c :: rest) = c.utf8Size + byteSize rest := by
  rw [byteSize, String.ofList_cons, String.utf8ByteSize_append,
    String.utf8ByteSize_singleton]
  rfl

end Text

end ShellToC
