import ShellToC.Script.Pattern
import ShellToC.Template.Basic

/-
  This file defines references: the places in a text where
  a value is to be filled in, or where a backslash protects
  a character.

  The references of a text are resolved from its right end
  inwards: the last one is taken, and what stands before it
  is resolved in the same way.

  Key definitions include:
    * `Reference`
    * `Reference.spelling`
    * `Reference.atHead?`
    * `Reference.last?`
    * `Fragment`
    * `Fragment.ofText`
    * `Template.resolve`
-/

namespace ShellToC

------------------------------------------------------------
-- References
------------------------------------------------------------

/- A place in a text that does not stand for itself. -/
inductive Reference where
  | escaped (c : Char)
  | braced (name : Text)
  | named (name : Text)
  | status
  | backgroundPid
  deriving DecidableEq, Repr

namespace Reference

/- How a reference is written. -/
def spelling : Reference → Text
  | .escaped c => ['\x5c', c]
  | .braced name => '$' :: '\x7b' :: name ++ ['\x7d']
  | .named name => '$' :: name
  | .status => ['$', '?']
  | .backgroundPid => ['$', '!']

/-
  The reference that starts the text, and what follows it.
  A name without braces is as long as it can be.
-/
def atHead? : Text → Option (Reference × Text)
  | '\x5c' :: c :: rest =>
      if c = '\x5c' ∨ c = '$' then
        some (.escaped c, rest)
      else
        none
  | '$' :: '\x7b' :: rest =>
      match Pattern.name? rest with
      | some (name, '\x7d' :: after) => some (.braced name, after)
      | _ => none
  | '$' :: '?' :: rest => some (.status, rest)
  | '$' :: '!' :: rest => some (.backgroundPid, rest)
  | '$' :: rest =>
      (Pattern.name? rest).map fun (name, after) =>
        (.named name, after)
  | _ => none

/- A reference at the head is followed by the rest of the text. -/
theorem spelling_append_of_atHead?
    {text after : Text}
    {ref : Reference}
    (h : atHead? text = some (ref, after)) :
    ref.spelling ++ after = text := by
  unfold atHead? at h
  split at h
  · split at h
    · simp only [Option.some.injEq, Prod.mk.injEq] at h
      obtain ⟨rfl, rfl⟩ := h
      rfl
    · contradiction
  · split at h
    · rename_i hname
      simp only [Option.some.injEq, Prod.mk.injEq] at h
      obtain ⟨rfl, rfl⟩ := h
      simp [spelling, Pattern.append_of_name? hname]
    · contradiction
  · simp only [Option.some.injEq, Prod.mk.injEq] at h
    obtain ⟨rfl, rfl⟩ := h
    rfl
  · simp only [Option.some.injEq, Prod.mk.injEq] at h
    obtain ⟨rfl, rfl⟩ := h
    rfl
  · obtain ⟨⟨name, rest⟩, hname, heq⟩ :=
      Option.map_eq_some_iff.1 h
    simp only [Prod.mk.injEq] at heq
    obtain ⟨rfl, rfl⟩ := heq
    simp [spelling, Pattern.append_of_name? hname]
  · contradiction

/- Every reference is written with at least one character. -/
theorem length_spelling_pos
    (ref : Reference) :
    0 < ref.spelling.length := by
  cases ref <;> simp [spelling]

/- What follows a reference is shorter than the text. -/
theorem length_lt_of_atHead?
    {text after : Text}
    {ref : Reference}
    (h : atHead? text = some (ref, after)) :
    after.length < text.length := by
  have happend := spelling_append_of_atHead? h
  have hpos := length_spelling_pos ref
  rw [← happend, List.length_append]
  omega

/-
  The last of the references that a reading from the left
  finds, with the text before it and the text after it.
-/
def last?
    (text : Text) : Option (Text × Reference × Text) :=
  match _h : atHead? text with
  | some (ref, after) =>
      match last? after with
      | some (before, last, rest) =>
          some (ref.spelling ++ before, last, rest)
      | none => some ([], ref, after)
  | none =>
      match text with
      | [] => none
      | c :: rest =>
          (last? rest).map fun (before, last, after) =>
            (c :: before, last, after)
  termination_by text.length
  decreasing_by
    · exact length_lt_of_atHead? _h
    · simp

/- The last reference stands in the text where it is said to. -/
theorem append_of_last?
    {text before after : Text}
    {ref : Reference}
    (h : last? text = some (before, ref, after)) :
    before ++ (ref.spelling ++ after) = text := by
  fun_induction last? text generalizing before ref after with
  | case1 text head rest hhead mid last tail hlast ih =>
      simp only [Option.some.injEq, Prod.mk.injEq] at h
      obtain ⟨rfl, rfl, rfl⟩ := h
      rw [List.append_assoc, ih hlast]
      exact spelling_append_of_atHead? hhead
  | case2 text head rest hhead hlast ih =>
      simp only [Option.some.injEq, Prod.mk.injEq] at h
      obtain ⟨rfl, rfl, rfl⟩ := h
      exact spelling_append_of_atHead? hhead
  | case3 => contradiction
  | case4 c rest hhead ih =>
      obtain ⟨⟨mid, last, tail⟩, hlast, heq⟩ :=
        Option.map_eq_some_iff.1 h
      simp only [Prod.mk.injEq] at heq
      obtain ⟨rfl, rfl, rfl⟩ := heq
      simp [ih hlast]

/- What stands before the last reference is shorter than the text. -/
theorem length_lt_of_last?
    {text before after : Text}
    {ref : Reference}
    (h : last? text = some (before, ref, after)) :
    before.length < text.length := by
  have happend := append_of_last? h
  have hpos := length_spelling_pos ref
  rw [← happend, List.length_append, List.length_append]
  omega

end Reference

------------------------------------------------------------
-- Fragments
------------------------------------------------------------

/- A part of a template: text that stands for itself, or a value. -/
inductive Fragment where
  | plain (text : Text)
  | value (arg : Argument)
  deriving DecidableEq, Repr

/-
  What becomes of a named variable: its value is filled in,
  or its reference is left, with braces, to the command
  interpreter.
-/
inductive Expansion where
  | fill
  | leave
  deriving DecidableEq, Repr

namespace Fragment

/- The text of a fragment that stands for itself. -/
def text? : Fragment → Option Text
  | .plain text => some text
  | .value _ => none

/- The value of a fragment that has one. -/
def value? : Fragment → Option Argument
  | .plain _ => none
  | .value arg => some arg

/- The fragment as it is written in a format. -/
def formatText : Fragment → Text
  | .plain text => Template.escapePercent text
  | .value arg => arg.directive

/- The fragment of a reference to a variable. -/
def ofName
    (name : Text) : Expansion → Fragment
  | .fill => .value (.var name)
  | .leave => .plain (Reference.braced name).spelling

/- The fragment of a reference. -/
def ofReference
    (expansion : Expansion) : Reference → Fragment
  | .escaped c => .plain [c]
  | .braced name => ofName name expansion
  | .named name => ofName name expansion
  | .status => .value .status
  | .backgroundPid => .value .backgroundPid

/- The fragments of a text, found from its right end inwards. -/
def ofText
    (expansion : Expansion)
    (text : Text) : List Fragment :=
  match _h : Reference.last? text with
  | none => [.plain text]
  | some (before, ref, after) =>
      ofText expansion before ++
        [ofReference expansion ref, .plain after]
  termination_by text.length
  decreasing_by exact Reference.length_lt_of_last? _h

end Fragment

------------------------------------------------------------
-- Resolving
------------------------------------------------------------

namespace Template

/- The template that the fragments make up. -/
def ofFragments
    (fragments : List Fragment) : Template :=
  if (fragments.filterMap Fragment.value?).isEmpty then
    .literal (fragments.filterMap Fragment.text?).flatten
  else
    .format (fragments.flatMap Fragment.formatText)
      (fragments.filterMap Fragment.value?)

/- Resolve the references of a text in reference form. -/
def resolve
    (expansion : Expansion)
    (text : Text) : Template :=
  ofFragments (Fragment.ofText expansion text)

end Template

end ShellToC
