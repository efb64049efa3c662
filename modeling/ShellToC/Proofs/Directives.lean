import ShellToC.Proofs.References

/-
  This file reads formats: their directives, and the
  characters that stand for themselves.

  A template denotes characters and values.  Its format is
  read as the same characters, with a directive that fits
  the value in place of each value.

  Key definitions include:
    * `Conversion`
    * `FormatPart`
    * `FormatPart.ofFormat?`
    * `Template.Denotes`

  Main declarations:
    * `Template.denotes_resolve`
    * `Template.denotes_join`
-/

namespace ShellToC

------------------------------------------------------------
-- Formats
------------------------------------------------------------

/- What a directive makes of the value that is filled in. -/
inductive Conversion where
  | string
  | int
  | long
  deriving DecidableEq, Repr

/- A part of a format: a character, or the place of a value. -/
inductive FormatPart where
  | char (c : Char)
  | fill (conversion : Conversion)
  deriving DecidableEq, Repr

namespace FormatPart

/- The conversion of a part in which a value is filled in. -/
def conversion? : FormatPart → Option Conversion
  | .char _ => none
  | .fill conversion => some conversion

/-
  The parts of a format, read from the left.  Two percent
  signs stand for one.  A percent sign that starts no known
  directive spoils the format.
-/
def ofFormat? : Text → Option (List FormatPart)
  | [] => some []
  | '%' :: '%' :: rest => (ofFormat? rest).map (.char '%' :: ·)
  | '%' :: 's' :: rest =>
      (ofFormat? rest).map (.fill .string :: ·)
  | '%' :: 'd' :: rest => (ofFormat? rest).map (.fill .int :: ·)
  | '%' :: 'l' :: 'd' :: rest =>
      (ofFormat? rest).map (.fill .long :: ·)
  | '%' :: _ => none
  | c :: rest => (ofFormat? rest).map (.char c :: ·)

/- A character that is no percent sign stands for itself. -/
theorem ofFormat?_cons
    {c : Char}
    (h : c ≠ '%')
    (rest : Text) :
    ofFormat? (c :: rest) =
      (ofFormat? rest).map (.char c :: ·) := by
  rw [ofFormat?.eq_def]
  split <;> simp_all

/- Formats side by side are read one after the other. -/
theorem ofFormat?_append
    {a : Text}
    {parts : List FormatPart}
    (h : ofFormat? a = some parts)
    (b : Text) :
    ofFormat? (a ++ b) = (ofFormat? b).map (parts ++ ·) := by
  fun_induction ofFormat? a generalizing parts with
  | case1 =>
      cases h
      simp
  | case2 rest ih | case3 rest ih | case4 rest ih
  | case5 rest ih =>
      rcases Option.map_eq_some_iff.mp h with ⟨mid, hMid, rfl⟩
      simp [ofFormat?, ih hMid, Function.comp_def]
  | case6 => contradiction
  | case7 c rest _ _ _ _ hOther ih =>
      have hc : c ≠ '%' := hOther
      rcases Option.map_eq_some_iff.mp h with ⟨mid, hMid, rfl⟩
      rw [List.cons_append, ofFormat?_cons hc, ih hMid]
      simp [Function.comp_def]

end FormatPart

------------------------------------------------------------
-- Atoms in Formats
------------------------------------------------------------

/- The conversion that fits a value. -/
def Argument.conversion : Argument → Conversion
  | .var _ => .string
  | .status => .int
  | .backgroundPid => .int

/- What stands for an atom in a format. -/
def Atom.part : Atom → FormatPart
  | .char c => .char c
  | .value arg => .fill arg.conversion

open FormatPart

/- The directive of a value fits it. -/
theorem Argument.ofFormat?_directive
    (arg : Argument) :
    ofFormat? arg.directive = some [.fill arg.conversion] := by
  cases arg <;> rw [directive, Text.ofString_ofList] <;> rfl

/- Escaped text stands for itself. -/
theorem Template.ofFormat?_escapePercent
    (text : Text) :
    ofFormat? (escapePercent text) =
      some (text.map FormatPart.char) := by
  induction text with
  | nil => rfl
  | cons c rest ih =>
      rw [escapePercent, Text.replaceChar] at ih ⊢
      rw [List.flatMap_cons]
      split
      next hc =>
        subst hc
        rw [Text.ofString_ofList] at ih ⊢
        simp [ofFormat?, ih]
      next hc =>
        rw [List.singleton_append, ofFormat?_cons hc, ih]
        rfl

/- The conversions of atoms are those of their values. -/
theorem Atom.filterMap_conversion?_part
    (atoms : List Atom) :
    (atoms.map part).filterMap conversion? =
      (atoms.filterMap value?).map Argument.conversion := by
  induction atoms with
  | nil => rfl
  | cons atom atoms ih =>
      cases atom with
      | char c => exact ih
      | value arg => exact congrArg (_ :: ·) ih

/- Atoms without values are characters. -/
theorem Atom.eq_map_char
    {atoms : List Atom}
    (h : atoms.filterMap value? = []) :
    atoms = (atoms.filterMap char?).map char := by
  induction atoms with
  | nil => rfl
  | cons atom atoms ih =>
      cases atom with
      | char c => exact congrArg (_ :: ·) (ih h)
      | value arg => cases h

namespace Fragment

/- The format of fragments is read as their atoms. -/
theorem ofFormat?_flatMap_formatText
    (fragments : List Fragment) :
    ofFormat? (fragments.flatMap formatText) =
      some ((fragments.flatMap atoms).map Atom.part) := by
  induction fragments with
  | nil => rfl
  | cons fragment fragments ih =>
      have hFirst : ofFormat? fragment.formatText =
          some (fragment.atoms.map Atom.part) := by
        cases fragment with
        | plain text =>
            rw [formatText, Template.ofFormat?_escapePercent]
            simp [atoms, Function.comp_def, Atom.part]
        | value arg => exact arg.ofFormat?_directive
      rw [List.flatMap_cons, ofFormat?_append hFirst, ih]
      simp

end Fragment

------------------------------------------------------------
-- What Templates Denote
------------------------------------------------------------

namespace Template

/-
  The template denotes these atoms.  A literal has no values
  at all, and a format has at least one.
-/
def Denotes
    (atoms : List Atom) : Template → Prop
  | .literal text => atoms = text.map .char
  | .format text args =>
      ofFormat? text = some (atoms.map Atom.part) ∧
        atoms.filterMap Atom.value? = args ∧ args ≠ []

/- The values of a template are those that it denotes. -/
theorem Denotes.args_eq
    {template : Template}
    {atoms : List Atom}
    (h : template.Denotes atoms) :
    template.args = atoms.filterMap Atom.value? := by
  cases template with
  | literal text =>
      rw [show atoms = text.map .char from h, List.filterMap_map]
      simp [args, Function.comp_def, Atom.value?]
  | format text args => exact h.2.1.symm

/- The format of a template is read as what it denotes. -/
theorem Denotes.ofFormat?_formatText
    {template : Template}
    {atoms : List Atom}
    (h : template.Denotes atoms) :
    ofFormat? template.formatText =
      some (atoms.map Atom.part) := by
  cases template with
  | literal text =>
      rw [show atoms = text.map .char from h, formatText,
        ofFormat?_escapePercent]
      simp [Function.comp_def, Atom.part]
  | format text args => exact h.1

/- A literal denotes its text. -/
theorem Denotes.eq_map_text
    {template : Template}
    {atoms : List Atom}
    (h : template.Denotes atoms)
    (hLiteral : template.isLiteral = true) :
    atoms = template.text.map .char := by
  cases template with
  | literal text => exact h
  | format text args => cases hLiteral

/- A template that is no literal has values. -/
theorem Denotes.args_ne_nil
    {template : Template}
    {atoms : List Atom}
    (h : template.Denotes atoms)
    (hFormat : template.isLiteral = false) :
    template.args ≠ [] := by
  cases template with
  | literal text => cases hFormat
  | format text args => exact h.2.2

/- A template made of fragments denotes their atoms. -/
theorem denotes_ofFragments
    (fragments : List Fragment) :
    (ofFragments fragments).Denotes
      (fragments.flatMap Fragment.atoms) := by
  have hValues := Fragment.filterMap_value?_eq fragments
  rw [ofFragments]
  split
  next hNone =>
    rw [List.isEmpty_iff, hValues] at hNone
    rw [Fragment.flatten_filterMap_text?_eq]
    exact Atom.eq_map_char hNone
  next hSome =>
    rw [List.isEmpty_iff] at hSome
    exact ⟨Fragment.ofFormat?_flatMap_formatText fragments,
      hValues.symm, hSome⟩

/- Resolving a text gives a template that denotes its atoms. -/
theorem denotes_resolve
    (expansion : Expansion)
    (text : Text) :
    (resolve expansion text).Denotes
      (Reference.atoms expansion text) := by
  have h := denotes_ofFragments (Fragment.ofText expansion text)
  rwa [Fragment.flatMap_atoms_ofText] at h

/- Literals are joined as they are. -/
theorem map_char_joinWith
    (separator : Text)
    (texts : List Text) :
    (Text.joinWith separator texts).map Atom.char =
      List.intercalate (separator.map .char)
        (texts.map (·.map .char)) := by
  induction texts with
  | nil => rfl
  | cons text texts ih =>
      cases texts with
      | nil => simp [Text.joinWith]
      | cons next texts =>
          rw [Text.joinWith] at ih ⊢
          simp only [List.map_cons, List.intercalate_cons_cons,
            List.map_append] at ih ⊢
          rw [ih]

/- The format of joined templates is read as what they denote. -/
theorem ofFormat?_joinWith
    (separator : Text)
    {parts : List (Template × List Atom)}
    (h : ∀ part ∈ parts, part.1.Denotes part.2) :
    ofFormat? (Text.joinWith (escapePercent separator)
        (parts.map (·.1.formatText))) =
      some ((List.intercalate (separator.map .char)
        (parts.map Prod.snd)).map Atom.part) := by
  induction parts with
  | nil => rfl
  | cons part parts ih =>
      have hFirst :=
        (h part List.mem_cons_self).ofFormat?_formatText
      have hRest := ih fun part hPart =>
        h part (List.mem_cons_of_mem _ hPart)
      cases parts with
      | nil => simpa [Text.joinWith] using hFirst
      | cons next parts =>
          rw [Text.joinWith] at hRest ⊢
          simp only [List.map_cons,
            List.intercalate_cons_cons] at hRest ⊢
          rw [List.append_assoc, ofFormat?_append hFirst,
            ofFormat?_append
              (ofFormat?_escapePercent separator), hRest]
          simp [Function.comp_def, Atom.part]

/- The values of joined templates are those of each of them. -/
theorem filterMap_value?_intercalate
    (separator : Text)
    {parts : List (Template × List Atom)}
    (h : ∀ part ∈ parts, part.1.Denotes part.2) :
    (List.intercalate (separator.map .char)
        (parts.map Prod.snd)).filterMap Atom.value? =
      parts.flatMap (·.1.args) := by
  have hSeparator : (separator.map Atom.char).filterMap
      Atom.value? = [] := by
    simp [List.filterMap_eq_nil_iff, Atom.value?]
  induction parts with
  | nil => rfl
  | cons part parts ih =>
      have hFirst := (h part List.mem_cons_self).args_eq
      have hRest := ih fun part hPart =>
        h part (List.mem_cons_of_mem _ hPart)
      cases parts with
      | nil => simp [hFirst]
      | cons next parts =>
          simp only [List.map_cons, List.intercalate_cons_cons,
            List.filterMap_append, hSeparator] at hRest ⊢
          rw [hRest, ← hFirst]
          simp

/- Joined templates denote what each of them denotes. -/
theorem denotes_join
    (separator : Text)
    {parts : List (Template × List Atom)}
    (h : ∀ part ∈ parts, part.1.Denotes part.2) :
    (join separator (parts.map Prod.fst)).Denotes
      (List.intercalate (separator.map .char)
        (parts.map Prod.snd)) := by
  rw [join]
  split
  next hLiteral =>
    have hTexts : parts.map Prod.snd =
        ((parts.map Prod.fst).map text).map (·.map .char) := by
      rw [List.map_map, List.map_map]
      refine List.map_congr_left fun part hPart => ?_
      exact (h part hPart).eq_map_text
        (List.all_eq_true.mp hLiteral part.1
          (List.mem_map_of_mem hPart))
    rw [hTexts, ← map_char_joinWith]
    rfl
  next hSome =>
    rw [List.map_map, List.flatMap_map]
    refine ⟨ofFormat?_joinWith separator h,
      filterMap_value?_intercalate separator h, ?_⟩
    rw [List.all_eq_true] at hSome
    refine fun hNone => hSome fun template hTemplate => ?_
    rcases List.mem_map.mp hTemplate with ⟨part, hPart, rfl⟩
    refine Bool.not_eq_false _ |>.mp fun hFormat => ?_
    exact (h part hPart).args_ne_nil hFormat
      (List.flatMap_eq_nil_iff.mp hNone part hPart)

end Template

end ShellToC
