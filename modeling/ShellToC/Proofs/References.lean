import ShellToC.Template.Quoting

/-
  This file reads the references of a text from the left.

  The references of a text are resolved from its right end
  inwards.  Since the last of them is found by a reading from
  the left, both directions find the same characters and
  values in the same order.

  Key definitions include:
    * `Atom`
    * `Fragment.atoms`
    * `Reference.atoms`

  Main declarations:
    * `Reference.atoms_append`
    * `Reference.atoms_protect_append`
    * `Fragment.flatMap_atoms_ofText`
    * `Template.resolve_eq_literal`
-/

namespace ShellToC

------------------------------------------------------------
-- Leading Names
------------------------------------------------------------

/- What starts a name can also go on with one. -/
theorem Text.isNameChar_of_isNameStart
    {c : Char}
    (h : isNameStart c = true) :
    isNameChar c = true := by
  simp only [isNameStart, Bool.or_eq_true] at h
  simp only [isNameChar, Char.isAlphanum, Bool.or_eq_true]
  rcases h with hAlpha | hUnderscore
  · exact Or.inl (Or.inl hAlpha)
  · exact Or.inr hUnderscore

theorem Text.all_isNameChar_of_isName
    {name : Text}
    (h : isName name = true) :
    name.all isNameChar = true := by
  cases name with
  | nil => rfl
  | cons c rest =>
      simp only [isName, Bool.and_eq_true] at h
      simp only [List.all_cons, isNameChar_of_isNameStart h.1,
        h.2, Bool.and_self]

/- A run of characters ends where the next one is of another kind. -/
theorem Text.span_append
    {p : Char → Bool}
    {run rest : Text}
    (hRun : run.all p = true)
    (hRest : rest.head?.all (! p ·) = true) :
    (run ++ rest).takeWhile p = run ∧
      (run ++ rest).dropWhile p = rest := by
  rw [List.takeWhile_append_of_pos (List.all_eq_true.mp hRun),
    List.dropWhile_append_of_pos (List.all_eq_true.mp hRun)]
  cases rest with
  | nil => simp
  | cons c rest =>
      have hc : p c = false := by simpa using hRest
      simp [hc]

namespace Pattern

/- A leading name is as long as it can be. -/
theorem name?_eq_some_iff
    {text name rest : Text} :
    name? text = some (name, rest) ↔
      text = name ++ rest ∧ Text.isName name = true ∧
        rest.head?.all (! Text.isNameChar ·) = true := by
  constructor
  · intro h
    refine ⟨(append_of_name? h).symm, ?_⟩
    simp only [name?] at h
    split at h
    next hName =>
      cases h
      refine ⟨hName, ?_⟩
      have hHead := List.head?_dropWhile_not Text.isNameChar text
      cases h : (text.dropWhile Text.isNameChar).head? <;>
        simp_all
    next => contradiction
  · rintro ⟨rfl, hName, hRest⟩
    have hAll := Text.all_isNameChar_of_isName hName
    have hSpan := Text.span_append hAll hRest
    simp [name?, hSpan.1, hSpan.2, hName]

/- A text has a leading name if its first character can start one. -/
theorem isSome_name?
    (text : Text) :
    (name? text).isSome = text.head?.any Text.isNameStart := by
  cases text with
  | nil => rfl
  | cons c rest =>
      simp only [name?, List.head?_cons, Option.any_some]
      cases hc : Text.isNameChar c with
      | true =>
          rw [List.takeWhile_cons_of_pos hc, Text.isName]
          cases Text.isNameStart c <;> simp
      | false =>
          rw [List.takeWhile_cons_of_neg (by simp [hc])]
          have hStart : Text.isNameStart c = false :=
            Bool.eq_false_iff.mpr fun hStart => by
              simp [Text.isNameChar_of_isNameStart hStart] at hc
          simp [hStart, Text.isName]

end Pattern

------------------------------------------------------------
-- Atoms
------------------------------------------------------------

/- The smallest part of a template: a character or a value. -/
inductive Atom where
  | char (c : Char)
  | value (arg : Argument)
  deriving DecidableEq, Repr

namespace Atom

/- The character of an atom. -/
def char? : Atom → Option Char
  | .char c => some c
  | .value _ => none

/- The value of an atom. -/
def value? : Atom → Option Argument
  | .char _ => none
  | .value arg => some arg

end Atom

namespace Fragment

/- The atoms of a fragment. -/
def atoms : Fragment → List Atom
  | .plain text => text.map .char
  | .value arg => [.value arg]

end Fragment

namespace Reference

/- The atoms of a text, found from the left. -/
def atoms
    (expansion : Expansion)
    (text : Text) : List Atom :=
  match _h : atHead? text with
  | some (ref, after) =>
      (Fragment.ofReference expansion ref).atoms ++
        atoms expansion after
  | none =>
      match text with
      | [] => []
      | c :: rest => .char c :: atoms expansion rest
  termination_by text.length
  decreasing_by
    · exact length_lt_of_atHead? _h
    · simp

theorem atoms_of_atHead?
    {text after : Text}
    {ref : Reference}
    (expansion : Expansion)
    (h : atHead? text = some (ref, after)) :
    atoms expansion text =
      (Fragment.ofReference expansion ref).atoms ++
        atoms expansion after := by
  rw [atoms]
  split
  next ref' after' h' =>
    rw [h] at h'
    cases h'
    rfl
  next h' => simp [h] at h'

@[simp] theorem atoms_nil
    (expansion : Expansion) :
    atoms expansion [] = [] := by
  rw [atoms]
  rfl

theorem atoms_cons
    {c : Char}
    {rest : Text}
    (expansion : Expansion)
    (h : atHead? (c :: rest) = none) :
    atoms expansion (c :: rest) =
      .char c :: atoms expansion rest := by
  rw [atoms]
  split
  next h' => simp [h] at h'
  next => rfl

------------------------------------------------------------
-- References and What Follows Them
------------------------------------------------------------

/- A dollar sign before a name is a reference to it. -/
theorem atHead?_named
    {text : Text}
    (h : text.head?.any Text.isNameStart = true) :
    atHead? ('$' :: text) =
      (Pattern.name? text).map fun (name, after) =>
        (.named name, after) := by
  cases text with
  | nil => simp at h
  | cons c rest =>
      have hc : Text.isNameStart c = true := by simpa using h
      have hBrace : c ≠ '\x7b' := by
        rintro rfl
        exact absurd hc (by decide)
      have hQuestion : c ≠ '?' := by
        rintro rfl
        exact absurd hc (by decide)
      have hMark : c ≠ '!' := by
        rintro rfl
        exact absurd hc (by decide)
      simp [atHead?, hBrace, hQuestion, hMark]

/- A name in braces behind a dollar sign is a reference to it. -/
theorem atHead?_braced
    {name : Text}
    (hName : Text.isName name = true)
    (after : Text) :
    atHead? ('$' :: '\x7b' :: (name ++ '\x7d' :: after)) =
      some (.braced name, after) := by
  have hRead : Pattern.name? (name ++ '\x7d' :: after) =
      some (name, '\x7d' :: after) :=
    Pattern.name?_eq_some_iff.mpr ⟨rfl, hName, by simp; decide⟩
  simp [atHead?, hRead]

/- A reference is found again where less of the text follows it. -/
theorem atHead?_spelling_append
    {text after : Text}
    {ref : Reference}
    (h : atHead? text = some (ref, after))
    {mid : Text}
    (hMid : mid <+: after) :
    atHead? (ref.spelling ++ mid) = some (ref, mid) := by
  unfold atHead? at h
  split at h
  next c rest =>
    split at h
    next hc =>
      cases h
      simp [spelling, atHead?, hc]
    next => contradiction
  next rest =>
    split at h
    next name after hName =>
      cases h
      have hName := (Pattern.name?_eq_some_iff.mp hName).2.1
      simpa [spelling] using atHead?_braced hName mid
    next => contradiction
  next =>
    cases h
    rfl
  next =>
    cases h
    rfl
  next rest _ _ _ =>
    rcases Option.map_eq_some_iff.mp h with
      ⟨⟨name, tail⟩, hName, hPair⟩
    cases hPair
    rcases Pattern.name?_eq_some_iff.mp hName with
      ⟨rfl, hIsName, hTail⟩
    have hRead : Pattern.name? (name ++ mid) =
        some (name, mid) := by
      refine Pattern.name?_eq_some_iff.mpr ⟨rfl, hIsName, ?_⟩
      rcases hMid with ⟨more, rfl⟩
      cases mid with
      | nil => rfl
      | cons c mid => exact hTail
    have hStart :
        (name ++ mid).head?.any Text.isNameStart = true := by
      rw [← Pattern.isSome_name?, hRead]
      rfl
    rw [spelling, List.cons_append, atHead?_named hStart, hRead]
    rfl
  next => contradiction

/- Where there is a reference, there still is one if more text follows. -/
theorem atHead?_ne_none_append
    {text : Text}
    (h : atHead? text ≠ none)
    (more : Text) :
    atHead? (text ++ more) ≠ none := by
  unfold atHead? at h
  split at h
  next c rest =>
    split at h
    next hc => simp [atHead?, hc]
    next => contradiction
  next rest =>
    split at h
    next name after hName =>
      rcases Pattern.name?_eq_some_iff.mp hName with
        ⟨rfl, hIsName, -⟩
      have hRead := atHead?_braced hIsName (after ++ more)
      simp only [List.cons_append, List.append_assoc] at hRead ⊢
      simp [hRead]
    next => contradiction
  next => simp [atHead?]
  next => simp [atHead?]
  next rest _ _ _ =>
    have hName : (Pattern.name? rest).isSome = true := by
      cases hName : Pattern.name? rest with
      | none => simp [hName] at h
      | some => rfl
    rw [Pattern.isSome_name?] at hName
    have hMore :
        (rest ++ more).head?.any Text.isNameStart = true := by
      cases rest with
      | nil => simp at hName
      | cons c rest => exact hName
    rw [List.cons_append, atHead?_named hMore]
    rw [← Pattern.isSome_name?] at hMore
    simpa [Option.isSome_iff_ne_none] using hMore
  next => contradiction

------------------------------------------------------------
-- Characters outside of References
------------------------------------------------------------

/- Whether no reference is written with the character. -/
def isOutside
    (c : Char) : Bool :=
  !Text.isNameChar c &&
    !(['\x5c', '$', '\x7b', '\x7d', '?', '!'].contains c)

theorem not_mem_spelling
    {text after : Text}
    {ref : Reference}
    (h : atHead? text = some (ref, after))
    {c : Char}
    (hc : isOutside c = true) :
    c ∉ ref.spelling := by
  simp only [isOutside, Bool.and_eq_true, Bool.not_eq_true',
    List.contains_eq_mem, decide_eq_false_iff_not,
    List.mem_cons, List.not_mem_nil, or_false, not_or] at hc
  have hNames {name : Text} (hName : Text.isName name = true) :
      c ∉ name := by
    intro hMem
    have hChar := List.all_eq_true.mp
      (Text.all_isNameChar_of_isName hName) c hMem
    simp [hc.1] at hChar
  unfold atHead? at h
  split at h
  next d rest =>
    split at h
    next hd =>
      cases h
      rcases hd with rfl | rfl <;> simp [spelling, hc]
    next => contradiction
  next rest =>
    split at h
    next name after hName =>
      cases h
      have hName := (Pattern.name?_eq_some_iff.mp hName).2.1
      simp [spelling, hc, hNames hName]
    next => contradiction
  next =>
    cases h
    simp [spelling, hc]
  next =>
    cases h
    simp [spelling, hc]
  next rest _ _ _ =>
    rcases Option.map_eq_some_iff.mp h with
      ⟨⟨name, tail⟩, hName, hPair⟩
    cases hPair
    have hName := (Pattern.name?_eq_some_iff.mp hName).2.1
    simp [spelling, hc, hNames hName]
  next => contradiction

/- A reference ends before a character that is outside of all references. -/
theorem atHead?_append
    {c : Char}
    (hc : isOutside c = true)
    (text rest : Text) :
    atHead? (text ++ c :: rest) =
      (atHead? text).map fun (ref, after) =>
        (ref, after ++ c :: rest) := by
  have hSome {ref : Reference} {after : Text}
      (h : atHead? (text ++ c :: rest) = some (ref, after)) :
      ∃ mid, after = mid ++ c :: rest ∧
        atHead? text = some (ref, mid) := by
    have hSplit := spelling_append_of_atHead? h
    rcases List.append_eq_append_iff.mp hSplit with
      ⟨mid, hText, hAfter⟩ | ⟨mid, hSpelling, hRest⟩
    · refine ⟨mid, hAfter, ?_⟩
      rw [hText]
      exact atHead?_spelling_append h ⟨_, hAfter.symm⟩
    · cases mid with
      | nil =>
          refine ⟨[], by simpa using hRest.symm, ?_⟩
          have hMid : ref.spelling = text := by
            simpa using hSpelling
          rw [← hMid]
          simpa using atHead?_spelling_append h
            (List.nil_prefix)
      | cons d mid =>
          rw [List.cons_append, List.cons.injEq] at hRest
          have hMem : c ∈ ref.spelling := by
            rw [hSpelling, hRest.1]
            simp
          exact absurd hMem (not_mem_spelling h hc)
  cases hHead : atHead? text with
  | none =>
      cases hMore : atHead? (text ++ c :: rest) with
      | none => rfl
      | some found =>
          rcases hSome hMore with ⟨mid, -, hFound⟩
          simp [hHead] at hFound
  | some found =>
      have hNone : atHead? text ≠ none := by simp [hHead]
      have hMore := atHead?_ne_none_append hNone (c :: rest)
      rcases Option.ne_none_iff_exists'.mp hMore with
        ⟨⟨ref, after⟩, hMore⟩
      rcases hSome hMore with ⟨mid, rfl, hFound⟩
      rw [hHead] at hFound
      cases hFound
      rw [hMore]
      rfl

/- Such a character separates the atoms of a text. -/
theorem atoms_append
    {c : Char}
    (hc : isOutside c = true)
    (expansion : Expansion)
    (text rest : Text) :
    atoms expansion (text ++ c :: rest) =
      atoms expansion text ++ .char c :: atoms expansion rest := by
  fun_induction atoms expansion text with
  | case1 text ref after hHead ih =>
      have hMore := atHead?_append hc text rest
      rw [hHead] at hMore
      rw [atoms_of_atHead? expansion hMore, ih, List.append_assoc]
  | case2 hHead =>
      have hMore := atHead?_append hc [] rest
      rw [hHead] at hMore
      exact atoms_cons expansion hMore
  | case3 d text hHead ih =>
      have hMore := atHead?_append hc (d :: text) rest
      rw [hHead, List.cons_append] at hMore
      rw [List.cons_append, atoms_cons expansion hMore, ih]
      rfl

------------------------------------------------------------
-- Protected Text
------------------------------------------------------------

/- A protected character stands for itself, whatever follows it. -/
theorem atoms_protect_append
    (expansion : Expansion)
    (c : Char)
    (rest : Text) :
    atoms expansion (Word.protect c ++ rest) =
      .char c :: atoms expansion rest := by
  rw [Word.protect]
  split
  next hc =>
    have hHead : atHead? (['\x5c', c] ++ rest) =
        some (.escaped c, rest) := by
      simp [atHead?, Or.comm.mp hc]
    rw [atoms_of_atHead? expansion hHead]
    rfl
  next hc =>
    simp only [not_or] at hc
    exact atoms_cons expansion (by simp [atHead?, hc])

/- Protected text stands for itself. -/
theorem atoms_flatMap_protect
    (expansion : Expansion)
    (text : Text) :
    atoms expansion (text.flatMap Word.protect) =
      text.map .char := by
  induction text with
  | nil => simp
  | cons c rest ih =>
      rw [List.flatMap_cons, atoms_protect_append, ih]
      rfl

------------------------------------------------------------
-- Both Directions
------------------------------------------------------------

/- A text without references is its characters. -/
theorem atoms_of_last?_eq_none
    {text : Text}
    (expansion : Expansion)
    (h : last? text = none) :
    atoms expansion text = text.map .char := by
  fun_induction last? text with
  | case1 | case2 => contradiction
  | case3 => simp
  | case4 c rest hHead ih =>
      rw [atoms_cons expansion hHead, ih (by simpa using h)]
      rfl

/- The last reference splits the atoms of a text. -/
theorem atoms_of_last?
    {text before after : Text}
    {ref : Reference}
    (expansion : Expansion)
    (h : last? text = some (before, ref, after)) :
    atoms expansion text =
      atoms expansion before ++
        ((Fragment.ofReference expansion ref).atoms ++
          after.map .char) := by
  fun_induction last? text generalizing before with
  | case1 text head rest hHead mid last tail hLast ih =>
      simp only [Option.some.injEq, Prod.mk.injEq] at h
      obtain ⟨rfl, rfl, rfl⟩ := h
      have hMid : mid <+: rest :=
        ⟨_, append_of_last? hLast⟩
      rw [atoms_of_atHead? expansion hHead, ih hLast,
        atoms_of_atHead? expansion
          (atHead?_spelling_append hHead hMid),
        List.append_assoc]
  | case2 text head rest hHead hLast ih =>
      simp only [Option.some.injEq, Prod.mk.injEq] at h
      obtain ⟨rfl, rfl, rfl⟩ := h
      rw [atoms_of_atHead? expansion hHead,
        atoms_of_last?_eq_none expansion hLast, atoms_nil]
      rfl
  | case3 => contradiction
  | case4 c rest hHead ih =>
      obtain ⟨⟨mid, last, tail⟩, hLast, heq⟩ :=
        Option.map_eq_some_iff.1 h
      simp only [Prod.mk.injEq] at heq
      obtain ⟨rfl, rfl, rfl⟩ := heq
      have hMid : atHead? (c :: mid) = none := by
        refine Classical.byContradiction fun hSome => ?_
        have hMore := atHead?_ne_none_append hSome
          (last.spelling ++ tail)
        rw [List.cons_append, append_of_last? hLast] at hMore
        exact hMore hHead
      rw [atoms_cons expansion hHead, ih hLast,
        atoms_cons expansion hMid]
      rfl

end Reference

namespace Fragment

/- Resolving from the right finds what a reading from the left finds. -/
theorem flatMap_atoms_ofText
    (expansion : Expansion)
    (text : Text) :
    (ofText expansion text).flatMap atoms =
      Reference.atoms expansion text := by
  fun_induction ofText expansion text with
  | case1 text hLast =>
      rw [Reference.atoms_of_last?_eq_none expansion hLast]
      simp [atoms]
  | case2 text before ref after hLast ih =>
      rw [Reference.atoms_of_last? expansion hLast,
        List.flatMap_append, ih]
      simp [atoms]

/- The values of fragments are those of their atoms. -/
theorem filterMap_value?_eq
    (fragments : List Fragment) :
    fragments.filterMap value? =
      (fragments.flatMap atoms).filterMap Atom.value? := by
  induction fragments with
  | nil => rfl
  | cons fragment fragments ih =>
      rw [List.flatMap_cons, List.filterMap_append, ← ih,
        List.filterMap_cons]
      cases fragment with
      | plain text =>
          have hNone : (text.map Atom.char).filterMap
              Atom.value? = [] := by
            simp [List.filterMap_eq_nil_iff, Atom.value?]
          rw [atoms, hNone]
          rfl
      | value arg => rfl

/- The text of fragments is that of their atoms. -/
theorem flatten_filterMap_text?_eq
    (fragments : List Fragment) :
    (fragments.filterMap text?).flatten =
      (fragments.flatMap atoms).filterMap Atom.char? := by
  induction fragments with
  | nil => rfl
  | cons fragment fragments ih =>
      rw [List.flatMap_cons, List.filterMap_append, ← ih,
        List.filterMap_cons]
      cases fragment with
      | plain text =>
          simp [atoms, text?, List.filterMap_map,
            Function.comp_def, Atom.char?]
      | value arg => rfl

end Fragment

namespace Template

/- A text in which nothing is to be filled in is a literal. -/
theorem resolve_eq_literal
    {expansion : Expansion}
    {text result : Text}
    (h : Reference.atoms expansion text =
      result.map Atom.char) :
    resolve expansion text = .literal result := by
  rw [resolve, ofFragments, Fragment.filterMap_value?_eq,
    Fragment.flatten_filterMap_text?_eq,
    Fragment.flatMap_atoms_ofText, h, List.filterMap_map,
    List.filterMap_map]
  simp [Function.comp_def, Atom.value?, Atom.char?]

end Template

end ShellToC
