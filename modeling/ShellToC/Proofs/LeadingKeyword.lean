import ShellToC.Proofs.Reader
import ShellToC.Proofs.TextParts

/-
  This file is about the keywords that lead a statement, and
  about the texts that have none and so are statements as
  they stand.

  Main declarations:
    * `Statement.leadingKeyword?_eq_some`
    * `Statement.ofChunk_eq_singleton`
-/

namespace ShellToC

namespace Statement

/- What a leading keyword is, and what is left behind it. -/
theorem leadingKeyword?_eq_some
    {text keyword rest : Text}
    (h : leadingKeyword? text = some (keyword, rest)) :
    keyword ∈ isolatedKeywords ∧
      ∃ b tail, Text.isBlank b = true ∧
        text = keyword ++ b :: tail ∧
          rest = Text.trimStart tail := by
  rcases List.exists_of_findSome?_eq_some h with
    ⟨k, hKeyword, hRest⟩
  rcases Option.map_eq_some_iff.mp hRest with
    ⟨tail, hTail, hPair⟩
  cases hPair
  rcases Option.filter_eq_some_iff.mp hTail with
    ⟨hText, hBlank⟩
  cases tail with
  | nil => simp at hBlank
  | cons b tail =>
      have hb : Text.isBlank b = true := by simpa using hBlank
      refine ⟨hKeyword, b, tail, hb,
        Text.dropLead?_eq_some_iff.mp hText, ?_⟩
      simp [Text.trimStart, hb]

/- A text without blanks has no leading keyword. -/
theorem leadingKeyword?_eq_none
    {text : Text}
    (h : text.all (! Text.isBlank ·) = true) :
    leadingKeyword? text = none := by
  refine Option.eq_none_iff_forall_ne_some.mpr ?_
  rintro ⟨keyword, rest⟩ hSome
  rcases (leadingKeyword?_eq_some hSome).2 with
    ⟨b, tail, hb, rfl, -⟩
  simp [hb] at h

/- A keyword is a word. -/
theorem all_isWordChar_keyword
    {keyword : Text}
    (h : keyword ∈ isolatedKeywords) :
    keyword ≠ [] ∧
      keyword.all Reader.isWordChar = true := by
  simp only [isolatedKeywords, List.mem_cons,
    List.not_mem_nil, or_false] at h
  rcases h with rfl | rfl | rfl | rfl | rfl
  all_goals
    rw [Text.ofString_ofList]
    decide +kernel

/- A trimmed text without a leading keyword is a statement. -/
theorem ofChunk_eq_singleton
    {text : Text}
    (hText : text ≠ [])
    (hTrimmed : text.IsTrimmed)
    (hKeyword : leadingKeyword? text = none) :
    ofChunk text = [text] := by
  rw [ofChunk, Text.trim_of_isTrimmed hTrimmed, isolate,
    if_neg (by simpa using hText)]
  split
  · simp_all
  · rfl

/- A comment has no leading keyword. -/
theorem leadingKeyword?_of_hash
    {text : Text}
    (h : text.head? = some '#') :
    leadingKeyword? text = none := by
  refine Option.eq_none_iff_forall_ne_some.mpr ?_
  rintro ⟨keyword, rest⟩ hSome
  rcases leadingKeyword?_eq_some hSome with
    ⟨hMem, b, tail, -, rfl, -⟩
  rcases all_isWordChar_keyword hMem with ⟨hNe, hWord⟩
  cases keyword with
  | nil => contradiction
  | cons c keyword =>
      have hc : c = '#' := by simpa using h
      rw [hc, List.all_cons] at hWord
      contradiction

end Statement

end ShellToC
