import ShellToC.Proofs.Directives

/-
  This file resolves the references of a text in a single
  pass from the left, and shows that the rounds from the
  right end inwards come to the same.

  Each round takes the last reference of what stands before
  the references that were taken already, and puts what it
  finds in front.  There are no more rounds than characters.

  Key definitions include:
    * `Pass`
    * `Pass.through`
    * `Fragment.round?`
    * `Fragment.rounds?`

  Main declarations:
    * `Pass.through_eq_foldl`
    * `Fragment.exists_rounds?`
    * `Template.resolve_eq_single_pass`
-/

namespace ShellToC

------------------------------------------------------------
-- Passing through a Text
------------------------------------------------------------

/-
  What a pass has put together so far: the text that stands
  for itself, the same text as a format, and the values to
  be filled in.
-/
structure Pass where
  text : Text := []
  format : Text := []
  args : List Argument := []
  deriving DecidableEq, Repr

namespace Pass

/- Copy a character.  A format has every percent sign twice. -/
def copy
    (pass : Pass)
    (c : Char) : Pass :=
  { pass with
    text := pass.text ++ [c]
    format := pass.format ++
      if c = '%' then ['%', '%'] else [c] }

/- Leave a place for a value. -/
def fill
    (pass : Pass)
    (arg : Argument) : Pass :=
  { pass with
    format := pass.format ++ arg.directive
    args := pass.args ++ [arg] }

/- Leave a place for a variable, or write its name in braces. -/
def refer
    (pass : Pass)
    (expansion : Expansion)
    (name : Text) : Pass :=
  match expansion with
  | .fill => pass.fill (.var name)
  | .leave => ('$' :: '\x7b' :: (name ++ ['\x7d'])).foldl copy pass

/-
  Pass through a text from the left.  A name is as long as
  it can be, and a dollar sign or a backslash that starts
  nothing is copied.
-/
def through
    (expansion : Expansion)
    (pass : Pass) : Text → Pass
  | [] => pass
  | '\x5c' :: '\x5c' :: rest =>
      through expansion (pass.copy '\x5c') rest
  | '\x5c' :: '$' :: rest => through expansion (pass.copy '$') rest
  | '$' :: '?' :: rest => through expansion (pass.fill .status) rest
  | '$' :: '!' :: rest =>
      through expansion (pass.fill .backgroundPid) rest
  | '$' :: '\x7b' :: rest =>
      match _h : rest.dropWhile Text.isNameChar with
      | '\x7d' :: after =>
          if Text.isName (rest.takeWhile Text.isNameChar) then
            through expansion
              (pass.refer expansion
                (rest.takeWhile Text.isNameChar)) after
          else
            through expansion (pass.copy '$') ('\x7b' :: rest)
      | _ => through expansion (pass.copy '$') ('\x7b' :: rest)
  | '$' :: rest =>
      if Text.isName (rest.takeWhile Text.isNameChar) then
        through expansion
          (pass.refer expansion (rest.takeWhile Text.isNameChar))
          (rest.dropWhile Text.isNameChar)
      else
        through expansion (pass.copy '$') rest
  | c :: rest => through expansion (pass.copy c) rest
  termination_by text => text.length
  decreasing_by
    all_goals simp only [List.length_cons]
    all_goals try omega
    · have hLength := Text.length_dropWhile_le Text.isNameChar rest
      rw [_h, List.length_cons] at hLength
      omega
    · have hLength := Text.length_dropWhile_le Text.isNameChar rest
      omega

/- The template that a pass has put together. -/
def template
    (pass : Pass) : Template :=
  if pass.args.isEmpty then
    .literal pass.text
  else
    .format pass.format pass.args

end Pass

------------------------------------------------------------
-- A Pass and the Atoms of a Text
------------------------------------------------------------

/- An atom as it is written in a format. -/
def Atom.formatText : Atom → Text
  | .char c => if c = '%' then ['%', '%'] else [c]
  | .value arg => arg.directive

namespace Pass

/- Put an atom behind what a pass has put together. -/
def add
    (pass : Pass) : Atom → Pass
  | .char c => pass.copy c
  | .value arg => pass.fill arg

theorem foldl_add_map_char
    (pass : Pass)
    (text : Text) :
    (text.map Atom.char).foldl add pass =
      text.foldl copy pass := by
  rw [List.foldl_map]
  rfl

theorem refer_eq
    (pass : Pass)
    (expansion : Expansion)
    (name : Text) :
    pass.refer expansion name =
      (Fragment.ofName name expansion).atoms.foldl add pass := by
  cases expansion with
  | fill => rfl
  | leave => exact (foldl_add_map_char pass _).symm

/- A reference at the head of a text is passed over as a whole. -/
theorem foldl_add_of_atHead?
    {expansion : Expansion}
    {text after : Text}
    {ref : Reference}
    (h : Reference.atHead? text = some (ref, after))
    (pass : Pass) :
    (Reference.atoms expansion text).foldl add pass =
      (Reference.atoms expansion after).foldl add
        ((Fragment.ofReference expansion ref).atoms.foldl add
          pass) := by
  rw [Reference.atoms_of_atHead? expansion h, List.foldl_append]

/- Any other character is passed over alone. -/
theorem foldl_add_of_none
    {expansion : Expansion}
    {c : Char}
    {rest : Text}
    (h : Reference.atHead? (c :: rest) = none)
    (pass : Pass) :
    (Reference.atoms expansion (c :: rest)).foldl add pass =
      (Reference.atoms expansion rest).foldl add
        (pass.copy c) := by
  rw [Reference.atoms_cons expansion h]
  rfl

/- A pass puts the atoms of a text together. -/
theorem through_eq_foldl
    (expansion : Expansion)
    (pass : Pass)
    (text : Text) :
    through expansion pass text =
      (Reference.atoms expansion text).foldl add pass := by
  fun_induction through expansion pass text with
  | case1 => simp
  | case2 pass rest ih =>
      have hHead : Reference.atHead? ('\x5c' :: '\x5c' :: rest) =
          some (.escaped '\x5c', rest) := rfl
      rw [foldl_add_of_atHead? hHead, ih]
      rfl
  | case3 pass rest ih =>
      have hHead : Reference.atHead? ('\x5c' :: '$' :: rest) =
          some (.escaped '$', rest) := rfl
      rw [foldl_add_of_atHead? hHead, ih]
      rfl
  | case4 pass rest ih =>
      have hHead : Reference.atHead? ('$' :: '?' :: rest) =
          some (.status, rest) := rfl
      rw [foldl_add_of_atHead? hHead, ih]
      rfl
  | case5 pass rest ih =>
      have hHead : Reference.atHead? ('$' :: '!' :: rest) =
          some (.backgroundPid, rest) := rfl
      rw [foldl_add_of_atHead? hHead, ih]
      rfl
  | case6 pass rest after hRest hName ih =>
      have hHead : Reference.atHead? ('$' :: '\x7b' :: rest) =
          some (.braced (rest.takeWhile Text.isNameChar),
            after) := by
        simp [Reference.atHead?, Pattern.name?, hName, hRest]
      rw [foldl_add_of_atHead? hHead, ih, refer_eq]
      rfl
  | case7 pass rest after hRest hName ih =>
      have hHead :
          Reference.atHead? ('$' :: '\x7b' :: rest) = none := by
        simp [Reference.atHead?, Pattern.name?, hName]
      rw [foldl_add_of_none hHead, ih]
  | case8 pass rest hRest ih =>
      have hHead :
          Reference.atHead? ('$' :: '\x7b' :: rest) = none := by
        rw [Reference.atHead?]
        split
        next name after hRead =>
          simp only [Pattern.name?, Option.ite_none_right_eq_some,
            Option.some.injEq, Prod.mk.injEq] at hRead
          exact absurd hRead.2.2 (hRest after)
        next => rfl
      rw [foldl_add_of_none hHead, ih]
  | case9 pass rest hStatus hPid hBrace hName ih =>
      have hHead : Reference.atHead? ('$' :: rest) =
          some (.named (rest.takeWhile Text.isNameChar),
            rest.dropWhile Text.isNameChar) := by
        simp [Reference.atHead?, Pattern.name?, hName]
      rw [foldl_add_of_atHead? hHead, ih, refer_eq]
      rfl
  | case10 pass rest hStatus hPid hBrace hName ih =>
      have hHead : Reference.atHead? ('$' :: rest) = none := by
        simp [Reference.atHead?, Pattern.name?, hName]
      rw [foldl_add_of_none hHead, ih]
  | case11 pass c rest hSlash hEscape _ _ _ hDollar ih =>
      have hHead : Reference.atHead? (c :: rest) = none := by
        unfold Reference.atHead?
        split <;> simp_all
      rw [foldl_add_of_none hHead, ih]

/- What a pass puts together is what the atoms make up. -/
theorem foldl_add_eq
    (pass : Pass)
    (atoms : List Atom) :
    atoms.foldl add pass =
      ⟨pass.text ++ atoms.filterMap Atom.char?,
       pass.format ++ atoms.flatMap Atom.formatText,
       pass.args ++ atoms.filterMap Atom.value?⟩ := by
  induction atoms generalizing pass with
  | nil => simp
  | cons atom atoms ih =>
      rw [List.foldl_cons, ih]
      cases atom with
      | char c =>
          have hValue : (Atom.char c :: atoms).filterMap
              Atom.value? = atoms.filterMap Atom.value? := rfl
          simp [add, copy, Atom.formatText, Atom.char?, hValue]
      | value arg =>
          have hChar : (Atom.value arg :: atoms).filterMap
              Atom.char? = atoms.filterMap Atom.char? := rfl
          simp [add, fill, Atom.formatText, Atom.value?, hChar]

end Pass

------------------------------------------------------------
-- Rounds from the Right
------------------------------------------------------------

namespace Fragment

/- The format of fragments is that of their atoms. -/
theorem flatMap_formatText_eq
    (fragments : List Fragment) :
    fragments.flatMap formatText =
      (fragments.flatMap atoms).flatMap Atom.formatText := by
  induction fragments with
  | nil => rfl
  | cons fragment fragments ih =>
      rw [List.flatMap_cons, List.flatMap_cons,
        List.flatMap_append, ← ih]
      cases fragment with
      | plain text =>
          rw [formatText, Template.escapePercent,
            Text.replaceChar, Text.ofString_ofList, atoms,
            List.flatMap_map]
          rfl
      | value arg => simp [formatText, atoms, Atom.formatText]

/-
  One round of resolving: the last reference of what is left
  at the front is put before what was found, with the text
  that follows it.
-/
def round?
    (expansion : Expansion)
    (front : Text)
    (found : List Fragment) : Option (Text × List Fragment) :=
  (Reference.last? front).map fun (before, ref, after) =>
    (before, ofReference expansion ref :: .plain after :: found)

/- A number of rounds, if there are references for all of them. -/
def rounds?
    (expansion : Expansion) :
    Nat → Text → List Fragment → Option (Text × List Fragment)
  | 0, front, found => some (front, found)
  | count + 1, front, found =>
      (round? expansion front found).bind fun (front, found) =>
        rounds? expansion count front found

/-
  The rounds come to an end, and what they have found then
  are the fragments of the text.
-/
theorem exists_rounds?
    (expansion : Expansion)
    (text : Text)
    (found : List Fragment) :
    ∃ count front more,
      count ≤ text.length ∧
      rounds? expansion count text found =
        some (front, more ++ found) ∧
      Reference.last? front = none ∧
      ofText expansion text = .plain front :: more := by
  fun_induction ofText expansion text generalizing found with
  | case1 text hLast =>
      exact ⟨0, text, [], Nat.zero_le _, rfl, hLast, rfl⟩
  | case2 text before ref after hLast ih =>
      rcases ih (ofReference expansion ref :: .plain after :: found)
        with ⟨count, front, more, hCount, hRounds, hFront, hMore⟩
      refine ⟨count + 1, front,
        more ++ [ofReference expansion ref, .plain after],
        ?_, ?_, hFront, ?_⟩
      · have hShorter := Reference.length_lt_of_last? hLast
        omega
      · rw [rounds?, round?, hLast]
        simpa using hRounds
      · rw [hMore]
        rfl

end Fragment

------------------------------------------------------------
-- Both Ways to Resolve
------------------------------------------------------------

/-
  Taking the last reference again and again comes to an end,
  after no more rounds than the text has characters.  The
  template that results is the one that a single pass from
  the left puts together.
-/
theorem Template.resolve_eq_single_pass
    (expansion : Expansion)
    (text : Text) :
    (∃ count front found,
      count ≤ text.length ∧
      Fragment.rounds? expansion count text [] =
        some (front, found) ∧
      Fragment.round? expansion front found = none ∧
      resolve expansion text =
        ofFragments (.plain front :: found)) ∧
    resolve expansion text =
      (Pass.through expansion {} text).template := by
  constructor
  · rcases Fragment.exists_rounds? expansion text [] with
      ⟨count, front, found, hCount, hRounds, hFront, hText⟩
    rw [List.append_nil] at hRounds
    refine ⟨count, front, found, hCount, hRounds, ?_, ?_⟩
    · rw [Fragment.round?, hFront]
      rfl
    · rw [resolve, hText]
  · rw [resolve, ofFragments, Pass.through_eq_foldl,
      Pass.foldl_add_eq, Pass.template,
      Fragment.filterMap_value?_eq,
      Fragment.flatten_filterMap_text?_eq,
      Fragment.flatMap_formatText_eq,
      Fragment.flatMap_atoms_ofText]
    rfl

/- References that touch, escapes, and dollar signs that start nothing. -/
example :
    (Pass.through .fill {}
      (Text.ofString "\\\\$a$\x7bb\x7d%$$?\\$c$\x7bd")).template =
      .format "\\%s%s%%$%d$c$\x7bd" [.var "a", .var "b", .status] := by
  repeat rw [Text.ofString_ofList]
  decide +kernel

end ShellToC
