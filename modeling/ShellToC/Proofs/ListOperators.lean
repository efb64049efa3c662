import ShellToC.Proofs.QuotingStep
import ShellToC.Proofs.TextParts
import ShellToC.Script.Form

/-
  This file finds the operators of command lists again in the
  parts of a statement.

  Whether an operator is bare is decided by the text before
  it.  It stays so in every part that starts where nothing is
  open.

  Key definitions include:
    * `Quoting.behind`
    * `Pipeline.Lists`

  Main declarations:
    * `Mark.scanFrom_append`
    * `Mark.getElem?_scanFrom`
    * `Pipeline.lists_of_scan`
    * `Pipeline.Lists.around`
    * `Pipeline.Lists.trimStatement`
    * `Pipeline.Lists.hasListOperator`
    * `Pipeline.Lists.stages`
-/

namespace ShellToC

------------------------------------------------------------
-- Quoting behind a Text
------------------------------------------------------------

namespace Quoting

/- The state behind a text, if it is followed by `next`. -/
def behind
    (next : Option Char)
    (q : Quoting) : Text → Quoting
  | [] => q
  | c :: rest =>
      behind next (q.step c (rest.head?.or next)).2 rest

/- Nothing is open, and nothing is decided about what follows. -/
structure IsOpen
    (q : Quoting) : Prop where
  neutral : q.isNeutral = true
  pending : q.pending = .nothing

theorem behind_append
    (next : Option Char)
    (q : Quoting)
    (a b : Text) :
    behind next q (a ++ b) =
      behind next (behind (b.head?.or next) q a) b := by
  induction a generalizing q with
  | nil => rfl
  | cons c rest ih =>
      have hHead : (rest ++ b).head?.or next =
          rest.head?.or (b.head?.or next) := by
        cases rest <;> simp
      rw [List.cons_append, behind, behind, hHead, ih]

/- Plain text opens nothing. -/
theorem IsOpen.behind
    {q : Quoting}
    (h : q.IsOpen)
    (next : Option Char)
    {text : Text}
    (hText : text.all isPlain = true) :
    (q.behind next text).IsOpen := by
  induction text generalizing q with
  | nil => exact h
  | cons c rest ih =>
      simp only [List.all_cons, Bool.and_eq_true] at hText
      rw [Quoting.behind, step_plain h.neutral h.pending hText.1]
      exact ih ⟨rfl, rfl⟩ hText.2

theorem isOpen_start : start.IsOpen :=
  ⟨rfl, rfl⟩

/- Behind blanks, all starts anew. -/
theorem behind_blanks
    {q : Quoting}
    (h : q.IsOpen)
    (next : Option Char)
    {blanks : Text}
    (hBlanks : blanks.all Text.isBlank = true)
    (hStart : blanks ≠ [] ∨ q = start) :
    q.behind next blanks = start := by
  induction blanks generalizing q with
  | nil => simpa [Quoting.behind] using hStart
  | cons c rest ih =>
      simp only [List.all_cons, Bool.and_eq_true] at hBlanks
      have hEnds : endsWord c = true := by
        simp [endsWord, hBlanks.1]
      rw [Quoting.behind, step_plain h.neutral h.pending
        (isPlain_of_isBlank hBlanks.1), hEnds]
      exact ih isOpen_start hBlanks.2 (Or.inr rfl)

/- An operator is bare if and only if nothing is open before it. -/
theorem step_operator_iff
    {q : Quoting}
    {op : Char}
    (hOp : op = '&' ∨ op = '|')
    (next : Option Char) :
    (q.step op next).1 = .bare ↔ q.IsOpen := by
  constructor
  · intro hBare
    have hStep := step_bare hBare
    refine ⟨hStep.1, ?_⟩
    cases hPending : q.pending with
    | nothing => rfl
    | quotedNext => exact absurd hPending hStep.2.1
    | commentNext =>
        have hFeed : op ≠ '\n' := by
          rcases hOp with rfl | rfl <;> decide
        simp [step, hPending, hFeed] at hBare
  · intro hOpen
    have hPlain : isPlain op = true := by
      rcases hOp with rfl | rfl <;> decide
    rw [step_plain hOpen.neutral hOpen.pending hPlain]

end Quoting

------------------------------------------------------------
-- Marks of Texts Side by Side
------------------------------------------------------------

namespace Mark

theorem scanFrom_cons
    (q : Quoting)
    (pos : Nat)
    (c : Char)
    (rest : Text) :
    scanFrom q pos (c :: rest) =
      ⟨pos, c, (q.step c rest.head?).1⟩ ::
        scanFrom (q.step c rest.head?).2
          (pos + c.utf8Size) rest := rfl

theorem length_scanFrom
    (q : Quoting)
    (pos : Nat)
    (text : Text) :
    (scanFrom q pos text).length = text.length := by
  have hChars := congrArg List.length (chars_scanFrom q pos text)
  rwa [chars, List.length_map] at hChars

/-
  The marks of two texts side by side.  The first ones depend
  on the second text only if it makes the last character of
  the first text open a substitution.
-/
theorem scanFrom_append
    (q : Quoting)
    (pos : Nat)
    {a b : Text}
    (h : a.getLast? = some '$' → b.head? ≠ some '(') :
    scanFrom q pos (a ++ b) =
      scanFrom q pos a ++
        scanFrom (q.behind none a) (pos + Text.byteSize a) b := by
  induction a generalizing q pos with
  | nil => rfl
  | cons c a ih =>
      have hStep : q.step c (a ++ b).head? = q.step c a.head? := by
        apply Quoting.step_congr_next
        intro hc
        cases a with
        | nil => simpa [hc] using h
        | cons d a => simp
      have hLast : a.getLast? = some '$' →
          b.head? ≠ some '(' := by
        intro hLast
        apply h
        simp [List.getLast?_cons, hLast]
      rw [List.cons_append, scanFrom_cons, scanFrom_cons, hStep,
        ih _ _ hLast, Quoting.behind, Option.or_none,
        Text.byteSize_cons, Nat.add_assoc, List.cons_append]

/- Where the second marks stand seldom matters. -/
theorem exists_scanFrom_append
    (q : Quoting)
    (pos : Nat)
    {a b : Text}
    (h : a.getLast? = some '$' → b.head? ≠ some '(') :
    ∃ place, scanFrom q pos (a ++ b) =
      scanFrom q pos a ++
        scanFrom (q.behind none a) place b :=
  ⟨_, scanFrom_append q pos h⟩

/-
  The mark of a character stands behind the bytes before it,
  and its role is decided by the text before it and by the
  next character.
-/
theorem getElem?_scanFrom
    (q : Quoting)
    (pos : Nat)
    (a b : Text)
    (c : Char) :
    (scanFrom q pos (a ++ c :: b))[a.length]? =
      some ⟨pos + Text.byteSize a, c,
        ((q.behind (some c) a).step c b.head?).1⟩ := by
  induction a generalizing q pos with
  | nil => simp [scanFrom_cons, Quoting.behind]
  | cons d a ih =>
      have hHead : (a ++ c :: b).head? = a.head?.or (some c) := by
        cases a <;> simp
      rw [List.cons_append, scanFrom_cons, List.length_cons,
        List.getElem?_cons_succ, ih, hHead, Quoting.behind,
        Text.byteSize_cons, Nat.add_assoc]

end Mark

------------------------------------------------------------
-- Operators in a Text
------------------------------------------------------------

namespace Pipeline

/-
  A bare operator of command lists stands between two parts
  of the text.
-/
structure Lists
    (text before : Text)
    (op : Char)
    (rest : Text) : Prop where
  text_eq : text = before ++ op :: op :: rest
  op_eq : op = '&' ∨ op = '|'
  isOpen : (Quoting.start.behind (some op) before).IsOpen

/- The state in which a mark is made. -/
theorem role_of_scanFrom
    {q : Quoting}
    {pos : Nat}
    {text : Text}
    {before after : List Mark}
    {m : Mark}
    (h : Mark.scanFrom q pos text = before ++ m :: after) :
    text = Mark.chars before ++ m.ch :: Mark.chars after ∧
      m.role = ((q.behind (some m.ch)
        (Mark.chars before)).step m.ch
          (Mark.chars after).head?).1 := by
  have hText := Mark.chars_scanFrom q pos text
  rw [h] at hText
  have hSplit : text =
      Mark.chars before ++ m.ch :: Mark.chars after := by
    rw [← hText]
    simp [Mark.chars]
  refine ⟨hSplit, ?_⟩
  have hMark := Mark.getElem?_scanFrom q pos (Mark.chars before)
    (Mark.chars after) m.ch
  have hLength : (Mark.chars before).length = before.length :=
    List.length_map Mark.ch
  rw [← hSplit, h, hLength, List.getElem?_append_right
    (Nat.le_refl _), Nat.sub_self, List.getElem?_cons_zero] at hMark
  exact congrArg Mark.role (Option.some.inj hMark)

/- The operators that are found among the marks of a text. -/
theorem lists_of_scan
    {text : Text}
    {before after : List Mark}
    {m n : Mark}
    {op : Char}
    (hScan : Mark.scan text = before ++ m :: n :: after)
    (hOp : op = '&' ∨ op = '|')
    (hm : m.isBareChar op = true)
    (hn : n.isBareChar op = true) :
    Lists text (Mark.chars before) op (Mark.chars after) := by
  simp only [Mark.isBareChar, Mark.isBare, Bool.and_eq_true,
    beq_iff_eq] at hm hn
  rcases role_of_scanFrom hScan with ⟨hText, hRole⟩
  rw [hm.1, hm.2] at hRole
  refine ⟨?_, hOp, (Quoting.step_operator_iff hOp _).mp hRole.symm⟩
  rw [hText, hm.2, ← hn.2]
  rfl

/- The marks of an operator before which nothing is open. -/
theorem exists_scanFrom
    {op : Char}
    (hOp : op = '&' ∨ op = '|')
    {q : Quoting}
    {before : Text}
    (hOpen : (q.behind (some op) before).IsOpen)
    (pos : Nat)
    (rest : Text) :
    ∃ a m n b, Mark.scanFrom q pos
        (before ++ op :: op :: rest) = a ++ m :: n :: b ∧
      m.isBareChar op = true ∧ n.isBareChar op = true ∧
        Mark.chars a = before ∧ Mark.chars b = rest := by
  induction before generalizing q pos with
  | nil =>
      rw [Quoting.behind] at hOpen
      have hPlain : Quoting.isPlain op = true := by
        rcases hOp with rfl | rfl <;> decide
      rw [List.nil_append, Mark.scanFrom_plain hOpen.neutral
        hOpen.pending _ hPlain, Mark.scanFrom_plain rfl rfl _
        hPlain]
      refine ⟨[], _, _, _, rfl, ?_, ?_, rfl,
        Mark.chars_scanFrom _ _ _⟩
      · simp [Mark.isBareChar, Mark.isBare]
      · simp [Mark.isBareChar, Mark.isBare]
  | cons c before ih =>
      have hHead : (before ++ op :: op :: rest).head? =
          before.head?.or (some op) := by
        cases before <;> simp
      rw [Quoting.behind, ← hHead] at hOpen
      rcases ih hOpen (pos + c.utf8Size) with
        ⟨a, m, n, b, hScan, hm, hn, rfl, hb⟩
      rw [List.cons_append, Mark.scanFrom]
      exact ⟨_ :: a, m, n, b, congrArg (_ :: ·) hScan, hm, hn,
        rfl, hb⟩

theorem Lists.exists_scan
    {text before rest : Text}
    {op : Char}
    (h : Lists text before op rest) :
    ∃ a m n b, Mark.scan text = a ++ m :: n :: b ∧
      m.isBareChar op = true ∧ n.isBareChar op = true ∧
        Mark.chars a = before ∧ Mark.chars b = rest := by
  rw [h.text_eq]
  exact exists_scanFrom h.op_eq h.isOpen 0 rest

/- An operator between other marks is found. -/
theorem hasPair_append
    {m n : Mark}
    {op : Char}
    (hOp : op = '&' ∨ op = '|')
    (hm : m.isBareChar op = true)
    (hn : n.isBareChar op = true)
    (a b : List Mark) :
    hasPair (a ++ m :: n :: b) = true := by
  induction a with
  | nil =>
      rcases hOp with rfl | rfl <;> simp [hasPair, hm, hn]
  | cons k a ih =>
      rw [List.cons_append]
      generalize a ++ m :: n :: b = marks at ih ⊢
      cases marks with
      | nil => contradiction
      | cons l marks => rw [hasPair, ih, Bool.or_true]

theorem Lists.hasListOperator
    {text before rest : Text}
    {op : Char}
    (h : Lists text before op rest) :
    hasListOperator text = true := by
  rcases h.exists_scan with ⟨a, m, n, b, hScan, hm, hn, -, -⟩
  rw [Pipeline.hasListOperator, hScan]
  exact hasPair_append h.op_eq hm hn a b

end Pipeline

------------------------------------------------------------
-- Operators in Parts of a Text
------------------------------------------------------------

/-
  Two equal characters stand in the middle part of a text if
  they are in no other part.  The first of them cannot stand
  in the lead, nor the second in the tail, and so no border
  of the middle part runs between them.
-/
theorem Text.split_around
    {before rest lead part tail : Text}
    {c : Char}
    (h : before ++ c :: c :: rest = lead ++ (part ++ tail))
    (hLead : c ∉ lead)
    (hTail : c ∉ tail) :
    ∃ a b, before = lead ++ a ∧ rest = b ++ tail ∧
      part = a ++ c :: c :: b := by
  have hFirst : ∃ a, before = lead ++ a ∧
      part ++ tail = a ++ c :: c :: rest := by
    rcases List.append_eq_append_iff.mp h with
      ⟨mid, hMid, hRest⟩ | ⟨mid, hMid, hRest⟩
    · cases mid with
      | nil => exact ⟨[], by simpa using hMid.symm, hRest.symm⟩
      | cons d mid =>
          rw [List.cons_append, List.cons.injEq] at hRest
          rw [hMid, ← hRest.1] at hLead
          simp at hLead
    · exact ⟨mid, hMid, hRest⟩
  rcases hFirst with ⟨a, hBefore, hPart⟩
  have hAssoc : part ++ tail = (a ++ [c, c]) ++ rest := by
    simp [hPart]
  rcases List.append_eq_append_iff.mp hAssoc with
    ⟨mid, hMid, hRest⟩ | ⟨mid, hMid, hRest⟩
  · rcases List.eq_nil_or_concat mid with rfl | ⟨init, d, rfl⟩
    · exact ⟨a, [], hBefore, by simpa using hRest.symm,
        by simpa using hMid.symm⟩
    · have hLast := congrArg List.getLast? hMid
      simp [List.getLast?_append, ← List.append_assoc] at hLast
      rw [hRest, ← hLast] at hTail
      simp at hTail
  · exact ⟨a, mid, hBefore, hRest, by simp [hMid]⟩

namespace Pipeline

/- The operator stands in a part behind which nothing of it follows. -/
theorem Lists.around
    {text before rest : Text}
    {op : Char}
    (h : Lists text before op rest)
    {lead part tail : Text}
    (hText : text = lead ++ (part ++ tail))
    (hLead : op ∉ lead)
    (hTail : op ∉ tail)
    (hStart : ∀ next, Quoting.start.behind next lead = .start) :
    ∃ a b, Lists part a op b ∧ rest = b ++ tail := by
  rcases Text.split_around (h.text_eq.symm.trans hText) hLead
    hTail with ⟨a, b, rfl, hRest, hPart⟩
  have hOpen := h.isOpen
  rw [Quoting.behind_append, hStart] at hOpen
  exact ⟨a, b, ⟨hPart, h.op_eq, hOpen⟩, hRest⟩

/- An operator is no blank. -/
theorem Lists.isBlank
    {text before rest : Text}
    {op : Char}
    (h : Lists text before op rest) :
    Text.isBlank op = false := by
  rcases h.op_eq with rfl | rfl <;> decide

theorem Lists.not_mem_blanks
    {text before rest : Text}
    {op : Char}
    (h : Lists text before op rest)
    {blanks : Text}
    (hBlanks : blanks.all Text.isBlank = true) :
    op ∉ blanks := by
  intro hMem
  have hBlank := List.all_eq_true.mp hBlanks op hMem
  simp [h.isBlank] at hBlank

end Pipeline

namespace Command

/- What trimming takes away from a statement. -/
theorem trimStatement_split
    (text : Text) :
    ∃ lead tail, lead.all Text.isBlank = true ∧
      tail.all (fun c => Text.isBlank c || c == ';') = true ∧
        text = lead ++ (trimStatement text ++ tail) := by
  rcases Text.trim_split text with
    ⟨lead, tail, hLead, hTail, hText⟩
  have hWeak {blanks : Text}
      (h : blanks.all Text.isBlank = true) :
      blanks.all (fun c => Text.isBlank c || c == ';') = true := by
    rw [List.all_eq_true] at h ⊢
    intro c hc
    simp [h c hc]
  rw [trimStatement]
  split
  next rest hDrop =>
    rcases Text.trimEnd_split rest with ⟨blanks, hBlanks, hRest⟩
    refine ⟨lead, blanks ++ ';' :: tail, hLead, ?_, ?_⟩
    · simp only [List.all_append, List.all_cons, hWeak hBlanks,
        hWeak hTail]
      decide
    · rw [Text.dropTail?_eq_some_iff, Text.ofString_ofList] at hDrop
      rw [hDrop] at hText
      rw [hText, ← List.append_assoc (Text.trimEnd rest), ← hRest]
      simp
  next => exact ⟨lead, tail, hLead, hWeak hTail, hText⟩

end Command

namespace Pipeline

/- Trimming a statement leaves its operators as they are. -/
theorem Lists.trimStatement
    {text before rest : Text}
    {op : Char}
    (h : Lists text before op rest) :
    ∃ a b tail, Lists (Command.trimStatement text) a op b ∧
      tail.all (fun c => Text.isBlank c || c == ';') = true ∧
        rest = b ++ tail := by
  rcases Command.trimStatement_split text with
    ⟨lead, tail, hLead, hTail, hText⟩
  have hOpTail : op ∉ tail := by
    intro hMem
    have hEnd := List.all_eq_true.mp hTail op hMem
    rcases h.op_eq with rfl | rfl <;> simp [h.isBlank] at hEnd
  rcases h.around hText (h.not_mem_blanks hLead) hOpTail
      (fun next => Quoting.behind_blanks Quoting.isOpen_start
        next hLead (Or.inr rfl)) with ⟨a, b, hLists, hRest⟩
  exact ⟨a, b, tail, hLists, hTail, hRest⟩

------------------------------------------------------------
-- Operators in Stages
------------------------------------------------------------

/-
  What is not cut stays together.  The piece that it stands
  in goes on up to the next cut, and so what follows it there
  is a part of what followed it before.
-/
theorem exists_mem_splitOnP
    {α : Type}
    {p : α → Bool}
    {part : List α}
    (hPart : ∀ x ∈ part, p x = false)
    (before rest : List α) :
    ∃ a b, a ++ (part ++ b) ∈
        (before ++ (part ++ rest)).splitOnP p ∧ b <+: rest := by
  induction before with
  | nil =>
      -- the part goes on up to the next cut
      let b := rest.takeWhile (!p ·)
      have hb : ∀ x ∈ b, p x = false := by
        intro x hx
        simpa using List.all_eq_true.mp
          (List.all_takeWhile (p := (!p ·)) (l := rest)) x hx
      have hWhole : ∀ x ∈ part ++ b, p x = false :=
        List.forall_mem_append.mpr ⟨hPart, hb⟩
      have hRest : rest = b ++ rest.dropWhile (!p ·) :=
        List.takeWhile_append_dropWhile.symm
      refine ⟨[], b, ?_, List.takeWhile_prefix _⟩
      rw [List.nil_append, List.nil_append, hRest,
        ← List.append_assoc]
      cases hBehind : rest.dropWhile (!p ·) with
      | nil =>
          rw [List.append_nil, List.splitOnP_eq_singleton hWhole]
          exact List.mem_singleton_self _
      | cons sep behind =>
          have hSep : p sep = true := by
            have hHead := List.head?_dropWhile_not (!p ·) rest
            simpa [hBehind] using hHead
          rw [List.splitOnP_append_cons _ _ hSep,
            List.splitOnP_eq_singleton hWhole]
          simp
  | cons c before ih =>
      rcases ih with ⟨a, b, hMem, hb⟩
      rw [List.cons_append, List.splitOnP_cons_eq_if_modifyHead]
      split
      · exact ⟨a, b, List.mem_cons_of_mem _ hMem, hb⟩
      · cases hSplit :
          (before ++ (part ++ rest)).splitOnP p with
        | nil => simp [hSplit] at hMem
        | cons first others =>
            rw [hSplit] at hMem
            rcases List.mem_cons.mp hMem with hFirst | hMem
            · refine ⟨c :: a, b, ?_, hb⟩
              rw [List.cons_append, hFirst]
              exact List.mem_cons_self
            · exact ⟨a, b, List.mem_cons_of_mem _ hMem, hb⟩

/- The stages of a pipeline keep the operators of command lists. -/
theorem Lists.stages
    {text before rest : Text}
    {op : Char}
    (h : Lists text before op rest)
    {stages : List Text}
    (hStages : stages? text = some stages) :
    ∃ a b, a ++ op :: op :: b ∈ stages ∧ b <+: rest := by
  rcases h.exists_scan with
    ⟨a, m, n, b, hScan, hm, hn, rfl, rfl⟩
  rw [stages?] at hStages
  split at hStages
  next hParts =>
    cases hStages
    rw [parts, hScan] at hParts ⊢
    rcases h.op_eq with rfl | rfl
    · simp only [Mark.isBareChar, Bool.and_eq_true,
        beq_iff_eq] at hm hn
      have hPair : ∀ k ∈ [m, n], k.isBareChar '|' = false := by
        simp [Mark.isBareChar, hm.2, hn.2]
      rcases exists_mem_splitOnP hPair a b with
        ⟨u, v, hMem, hv⟩
      rcases Text.trim_split (Mark.chars (u ++ ([m, n] ++ v)))
        with ⟨lead, tail, hLead, hTail, hTrim⟩
      have hChars : Mark.chars (u ++ ([m, n] ++ v)) =
          Mark.chars u ++ '&' :: '&' :: Mark.chars v := by
        simp [Mark.chars, hm.2, hn.2]
      rcases Text.split_around (hChars.symm.trans hTrim)
          (h.not_mem_blanks hLead) (h.not_mem_blanks hTail) with
        ⟨x, y, -, hRest, hStage⟩
      refine ⟨x, y, ?_, ?_⟩
      · rw [← hStage]
        exact List.mem_map_of_mem hMem
      · have hPrefix : Mark.chars v <+: Mark.chars b :=
          hv.map Mark.ch
        rw [hRest] at hPrefix
        exact (List.prefix_append y tail).trans hPrefix
    · -- two pipe signs in a row leave an empty part
      have hEmpty : [] ∈ (a ++ m :: n :: b).splitOnP
          (Mark.isBareChar '|') := by
        rw [List.splitOnP_append_cons _ _ hm,
          ← List.nil_append (n :: b),
          List.splitOnP_append_cons _ _ hn]
        simp
      have hAll := List.all_eq_true.mp hParts.2 _
        (List.mem_map_of_mem hEmpty)
      exact absurd hAll (by decide)
  next => contradiction

end Pipeline

end ShellToC
