import ShellToC.CommandLine
import ShellToC.Proofs.TextParts

/-
  This file says which arguments name a script to be compiled,
  and what their order matters to.

  Arguments are read in groups: a flag with the file behind
  it, or one argument that stands for itself.  A file may be
  spelt like a flag, so it is the reading from the left that
  tells the one from the other.  What all groups together ask
  for is only looked at in the end.

  Key definitions include:
    * `ArgumentGroup`
    * `ArgumentGroup.words`
    * `ArgumentGroup.AreAccepted`
    * `ArgumentGroup.options`
    * `Arguments.flagPlaces`
    * `Arguments.take`
    * `Arguments.after`

  Main declarations:
    * `Arguments.readFrom_group`
    * `Arguments.readFrom_words`
    * `Arguments.endsKnown`
    * `Request.ofArguments_words`
    * `Request.ofArguments_compile_iff_groups`
-/

namespace ShellToC

------------------------------------------------------------
-- Groups
------------------------------------------------------------

/- The flags that take the argument behind them as a file to write. -/
def fileFlags : List Text :=
  ["-o", "--out"]

/- The flags of a verbose run. -/
def verboseFlags : List Text :=
  ["-v", "--verbose"]

/- The flags that end the reading with a text about the command. -/
def helpFlags : List Text :=
  ["-h", "--help", "-V", "--version"]

/- Arguments that are read together. -/
inductive ArgumentGroup where
  /- A file to write, behind a flag of its own. -/
  | file (flag name : Text) (hFlag : flag ∈ fileFlags)
  /- A file to write, in one argument with the flag. -/
  | joined (name : Text) (hName : name ≠ [])
  /- A flag that chooses what is done. -/
  | action (flag : Text) (mode : Mode)
      (hFlag : (flag, mode) ∈ actionFlags)
  | verbose (flag : Text) (hFlag : flag ∈ verboseFlags)
  /- A script, which is all that does not start with a dash. -/
  | script (name : Text) (hName : name.head? ≠ some '-')

namespace ArgumentGroup

/- The arguments that make up a group. -/
def words : ArgumentGroup → List Text
  | file flag name _ => [flag, name]
  | joined name _ => ["--out=" ++ name]
  | action flag _ _ => [flag]
  | verbose flag _ => [flag]
  | script name _ => [name]

/- The files to write that a group names. -/
def files : ArgumentGroup → List Text
  | file _ name _ => [name]
  | joined name _ => [name]
  | _ => []

/- The actions that a group chooses. -/
def actions : ArgumentGroup → List (Text × Mode)
  | action flag mode _ => [(flag, mode)]
  | _ => []

/- The scripts that a group names. -/
def scripts : ArgumentGroup → List Text
  | script name _ => [name]
  | _ => []

/- Whether a group asks for a verbose run. -/
def isVerbose : ArgumentGroup → Bool
  | verbose _ _ => true
  | _ => false

/-
  Groups name one script and choose at most one action, and
  no action together with a file to write.
-/
structure AreAccepted
    (groups : List ArgumentGroup) : Prop where
  oneScript : (groups.flatMap scripts).length = 1
  fewActions : (groups.flatMap actions).length ≤ 1
  apart : groups.flatMap actions = [] ∨
    groups.flatMap files = []

/- The options that groups ask for: of several files, the last one. -/
def options
    (groups : List ArgumentGroup) : CompileOptions where
  mode := ((groups.flatMap actions).head?.map Prod.snd).getD
    (.make .write)
  out := (groups.flatMap files).getLast?.getD "output.c"

end ArgumentGroup

open ArgumentGroup (words files scripts isVerbose AreAccepted)

------------------------------------------------------------
-- Flags
------------------------------------------------------------

namespace Arguments

/- The flags that are spelt out. -/
def flags : List Text :=
  fileFlags ++ helpFlags ++ verboseFlags ++
    actionFlags.map Prod.fst

/- The flags differ from one another and from all other arguments. -/
theorem flags_apart :
    (∀ flag ∈ flags, flag.head? = some '-' ∧
      Text.dropLead? "--out=" flag = none) ∧
    (∀ flag ∈ verboseFlags,
      flag ∉ fileFlags ∧ flag ∉ helpFlags) ∧
    (∀ action ∈ actionFlags, action.1 ∉ fileFlags ∧
      action.1 ∉ helpFlags ∧ action.1 ∉ verboseFlags ∧
      actionFlags.lookup action.1 = some action.2) := by
  simp only [flags, helpFlags, verboseFlags, fileFlags,
    actionFlags]
  repeat rw [Text.ofString_ofList]
  decide +kernel

theorem joined_not_mem_flags
    (name : Text) :
    "--out=" ++ name ∉ flags := by
  intro h
  have hLead := (flags_apart.1 _ h).2
  rw [Text.dropLead?_eq_some_iff.mpr rfl] at hLead
  contradiction

theorem script_not_mem_flags
    {name : Text}
    (hName : name.head? ≠ some '-') :
    name ∉ flags :=
  fun h => hName (flags_apart.1 _ h).1

/- A script is no file behind a flag. -/
theorem dropLead?_script
    {name : Text}
    (hName : name.head? ≠ some '-') :
    Text.dropLead? "--out=" name = none := by
  refine Option.eq_none_iff_forall_ne_some.mpr fun rest h => ?_
  apply hName
  rw [Text.dropLead?_eq_some_iff.mp h, Text.ofString_ofList]
  rfl

theorem takesFile_iff
    {argument : Text} :
    takesFile argument = true ↔ argument ∈ fileFlags := by
  simp [takesFile, fileFlags]

/- An argument that is none of the flags is in none of their lists. -/
theorem not_mem_of_not_mem_flags
    {argument : Text}
    (h : argument ∉ flags) :
    argument ∉ fileFlags ∧ argument ∉ helpFlags ∧
      argument ∉ verboseFlags ∧
      actionFlags.lookup argument = none := by
  simp only [flags, List.mem_append, not_or] at h
  refine ⟨h.1.1.1, h.1.1.2, h.1.2, ?_⟩
  rw [List.lookup_eq_none_iff]
  intro action hAction
  have hNe : argument ≠ action.1 := by
    rintro rfl
    exact h.2 (List.mem_map_of_mem hAction)
  simpa using hNe

------------------------------------------------------------
-- Single Arguments
------------------------------------------------------------

/- Take up a group. -/
def take
    (arguments : Arguments) :
    ArgumentGroup → Except Request Arguments
  | .file _ name _ => .ok { arguments with out := some name }
  | .joined name _ => .ok { arguments with out := some name }
  | .action flag mode _ =>
      .ok { arguments with
        actions := arguments.actions ++ [(flag, mode)] }
  | .verbose _ _ => .ok { arguments with verbose := true }
  | .script name _ => arguments.addScript name

/- A group of one argument says what the argument says. -/
theorem addSingle_of_words
    (arguments : Arguments)
    {group : ArgumentGroup}
    {argument : Text}
    (h : group.words = [argument]) :
    argument ∉ fileFlags ∧
      arguments.addSingle argument = arguments.take group := by
  cases group with
  | file flag name hFlag => simp [words] at h
  | joined name hName =>
      cases h
      rcases not_mem_of_not_mem_flags (joined_not_mem_flags name)
        with ⟨hFile, hHelp, hVerbose, -⟩
      have hLead : Text.dropLead? "--out=" ("--out=" ++ name) =
          some name := Text.dropLead?_eq_some_iff.mpr rfl
      simp only [helpFlags, verboseFlags, List.mem_cons,
        List.not_mem_nil, or_false, not_or] at hHelp hVerbose
      refine ⟨hFile, ?_⟩
      cases name with
      | nil => contradiction
      | cons c rest =>
          simp [addSingle, hHelp, hVerbose, hLead, take]
  | action flag mode hFlag =>
      cases h
      rcases flags_apart.2.2 _ hFlag with
        ⟨hFile, hHelp, hVerbose, hMode⟩
      have hLead := (flags_apart.1 argument
        (List.mem_append_right _ (List.mem_map_of_mem hFlag))).2
      simp only [helpFlags, verboseFlags, List.mem_cons,
        List.not_mem_nil, or_false, not_or] at hHelp hVerbose
      refine ⟨hFile, ?_⟩
      simp [addSingle, hHelp, hVerbose, hLead, hMode, take]
  | verbose flag hFlag =>
      cases h
      rcases flags_apart.2.1 argument hFlag with ⟨hFile, hHelp⟩
      simp only [helpFlags, verboseFlags, List.mem_cons,
        List.not_mem_nil, or_false, not_or] at hHelp hFlag
      refine ⟨hFile, ?_⟩
      simp [addSingle, hHelp, hFlag, take]
  | script name hName =>
      cases h
      rcases not_mem_of_not_mem_flags (script_not_mem_flags hName)
        with ⟨hFile, hHelp, hVerbose, hMode⟩
      simp only [helpFlags, verboseFlags, List.mem_cons,
        List.not_mem_nil, or_false, not_or] at hHelp hVerbose
      refine ⟨hFile, ?_⟩
      simp [addSingle, hHelp, hVerbose, dropLead?_script hName,
        hMode, hName, take]

/- An argument makes a group, asks for help, or is not understood. -/
theorem addSingle_cases
    (arguments : Arguments)
    (argument : Text) :
    (∃ group : ArgumentGroup, group.words = [argument]) ∨
      argument ∈ helpFlags ∧
        (arguments.addSingle argument = .error .help ∨
          arguments.addSingle argument = .error .version) ∨
      ∃ message, arguments.addSingle argument =
        .error (.misuse message) := by
  fun_cases addSingle arguments argument
  case case1 hHelp =>
    refine .inr (.inl ⟨?_, .inl rfl⟩)
    rcases hHelp with rfl | rfl <;> simp [helpFlags]
  case case2 _ hVersion =>
    refine .inr (.inl ⟨?_, .inr rfl⟩)
    rcases hVersion with rfl | rfl <;> simp [helpFlags]
  case case3 hVerbose =>
    exact .inl ⟨.verbose argument
      (by simpa [verboseFlags] using hVerbose), rfl⟩
  case case4 => exact .inr (.inr ⟨_, rfl⟩)
  case case5 name hName hLead =>
    rw [Text.dropLead?_eq_some_iff] at hLead
    exact .inl ⟨.joined name hName, by rw [hLead]; rfl⟩
  case case6 mode hMode _ =>
    rcases List.lookup_eq_some_iff.mp hMode with
      ⟨before, after, hTable, -⟩
    exact .inl ⟨.action argument mode (by simp [hTable]), rfl⟩
  case case7 => exact .inr (.inr ⟨_, rfl⟩)
  case case8 hDash => exact .inl ⟨.script argument hDash, rfl⟩

------------------------------------------------------------
-- Groups of Arguments
------------------------------------------------------------

theorem readFrom_file
    (arguments : Arguments)
    {flag : Text}
    (hFlag : flag ∈ fileFlags)
    (name : Text)
    (rest : List Text) :
    readFrom arguments (flag :: name :: rest) =
      readFrom { arguments with out := some name } rest := by
  rw [readFrom, if_pos (takesFile_iff.mpr hFlag)]

theorem readFrom_single
    (arguments : Arguments)
    {argument : Text}
    (hFile : argument ∉ fileFlags)
    (rest : List Text) :
    readFrom arguments (argument :: rest) =
      (arguments.addSingle argument).bind (readFrom · rest) := by
  rw [← takesFile_iff] at hFile
  cases rest with
  | nil =>
      rw [readFrom, if_neg hFile]
      cases arguments.addSingle argument <;> rfl
  | cons next rest =>
      rw [readFrom, if_neg hFile]
      cases arguments.addSingle argument <;> rfl

/- A group is taken up, and the reading goes on behind it. -/
theorem readFrom_group
    (arguments : Arguments)
    (group : ArgumentGroup)
    (rest : List Text) :
    readFrom arguments (group.words ++ rest) =
      (arguments.take group).bind (readFrom · rest) := by
  by_cases hFile : ∃ flag name, group.words = [flag, name]
  · cases group with
    | file flag name hFlag =>
        exact readFrom_file arguments hFlag name rest
    | _ => simp [words] at hFile
  · have hSingle : ∃ argument, group.words = [argument] := by
      cases group <;> simp_all [words]
    rcases hSingle with ⟨argument, hWords⟩
    rcases addSingle_of_words arguments hWords with ⟨hFlag, hTake⟩
    rw [hWords, List.singleton_append,
      readFrom_single arguments hFlag, hTake]

/- What has been said after groups, if no script is named twice. -/
def after
    (arguments : Arguments)
    (groups : List ArgumentGroup) : Arguments where
  script := arguments.script.or (groups.flatMap scripts).head?
  out := (groups.flatMap files).getLast?.or arguments.out
  actions := arguments.actions ++
    groups.flatMap ArgumentGroup.actions
  verbose := arguments.verbose || groups.any isVerbose

theorem after_of_take
    {arguments next : Arguments}
    {group : ArgumentGroup}
    (h : arguments.take group = .ok next)
    (groups : List ArgumentGroup) :
    next.script.toList =
        arguments.script.toList ++ group.scripts ∧
      next.after groups = arguments.after (group :: groups) := by
  cases group with
  | script name hName =>
      rw [take, addScript] at h
      split at h
      next hScript =>
        cases h
        simp [after, hScript, scripts, files,
          ArgumentGroup.actions, isVerbose]
      next => contradiction
  | _ =>
      cases h
      simp [after, scripts, files, ArgumentGroup.actions,
        isVerbose, List.getLast?_cons]

/- Nothing but a second script is refused. -/
theorem take_eq_error
    {arguments : Arguments}
    {group : ArgumentGroup}
    {request : Request}
    (h : arguments.take group = .error request) :
    1 < (arguments.script.toList ++ group.scripts).length ∧
      ∃ message, request = .misuse message := by
  cases group with
  | script name hName =>
      rw [take, addScript] at h
      split at h
      next => contradiction
      next hScript =>
        cases h
        exact ⟨by simp [hScript, scripts], _, rfl⟩
  | _ => cases h

/-
  Groups are read to their end, unless they name a further
  script.
-/
theorem readFrom_words
    (arguments : Arguments)
    (groups : List ArgumentGroup) :
    let found := arguments.script.toList ++ groups.flatMap scripts
    found.length ≤ 1 ∧
        readFrom arguments (groups.flatMap words) =
          .ok (arguments.after groups) ∨
      1 < found.length ∧ ∃ message,
        readFrom arguments (groups.flatMap words) =
          .error (.misuse message) := by
  induction groups generalizing arguments with
  | nil =>
      left
      have hAfter : arguments.after [] = arguments := by
        simp [after]
      refine ⟨?_, by rw [hAfter]; rfl⟩
      cases arguments.script <;> simp
  | cons group groups ih =>
      simp only [List.flatMap_cons, readFrom_group]
      rw [← List.append_assoc]
      cases hTake : arguments.take group with
      | error request =>
          right
          rcases take_eq_error hTake with ⟨hMany, message, rfl⟩
          refine ⟨?_, message, rfl⟩
          rw [List.length_append]
          omega
      | ok next =>
          rcases after_of_take hTake groups with
            ⟨hScript, hAfter⟩
          rw [← hScript, ← hAfter]
          exact ih next

------------------------------------------------------------
-- Flags in Their Places
------------------------------------------------------------

/- The arguments that are not the file behind a flag. -/
def flagPlaces : List Text → List Text
  | [] => []
  | [argument] => [argument]
  | argument :: next :: rest =>
      argument ::
        if takesFile argument then
          flagPlaces rest
        else
          flagPlaces (next :: rest)

theorem flagPlaces_file
    {flag : Text}
    (hFlag : flag ∈ fileFlags)
    (name : Text)
    (rest : List Text) :
    flagPlaces (flag :: name :: rest) =
      flag :: flagPlaces rest := by
  rw [flagPlaces, if_pos (takesFile_iff.mpr hFlag)]

theorem flagPlaces_single
    {argument : Text}
    (hFile : argument ∉ fileFlags)
    (rest : List Text) :
    flagPlaces (argument :: rest) =
      argument :: flagPlaces rest := by
  rw [← takesFile_iff] at hFile
  cases rest with
  | nil => rfl
  | cons next rest => rw [flagPlaces, if_neg hFile]

/-
  Arguments make groups, or the reading ends with a flag that
  asks for help, or with a misuse.
-/
def EndsKnown
    (words : List Text) : Prop :=
  ∀ arguments : Arguments,
    (∃ groups : List ArgumentGroup,
        words = groups.flatMap ArgumentGroup.words) ∨
      (∃ flag ∈ flagPlaces words, flag ∈ helpFlags) ∧
        (readFrom arguments words = .error .help ∨
          readFrom arguments words = .error .version) ∨
      ∃ message,
        readFrom arguments words = .error (.misuse message)

theorem EndsKnown.file
    {flag : Text}
    (hFlag : flag ∈ fileFlags)
    (name : Text)
    {rest : List Text}
    (h : EndsKnown rest) :
    EndsKnown (flag :: name :: rest) := by
  intro arguments
  rw [readFrom_file arguments hFlag, flagPlaces_file hFlag]
  rcases h { arguments with out := some name } with
    ⟨groups, hGroups⟩ | ⟨⟨other, hOther, hHelp⟩, hStop⟩ | hStop
  · refine .inl ⟨.file flag name hFlag :: groups, ?_⟩
    rw [List.flatMap_cons, hGroups]
    rfl
  · exact .inr (.inl
      ⟨⟨other, List.mem_cons_of_mem _ hOther, hHelp⟩, hStop⟩)
  · exact .inr (.inr hStop)

theorem EndsKnown.single
    {argument : Text}
    (hFile : argument ∉ fileFlags)
    {rest : List Text}
    (h : EndsKnown rest) :
    EndsKnown (argument :: rest) := by
  intro arguments
  rw [readFrom_single arguments hFile, flagPlaces_single hFile]
  rcases addSingle_cases arguments argument with
    ⟨group, hWords⟩ | ⟨hHelp, hStop⟩ | ⟨message, hStop⟩
  · rw [(addSingle_of_words arguments hWords).2]
    cases hTake : arguments.take group with
    | error request =>
        rcases (take_eq_error hTake).2 with ⟨message, rfl⟩
        exact .inr (.inr ⟨message, rfl⟩)
    | ok next =>
        rcases h next with
          ⟨groups, hGroups⟩ | ⟨⟨other, hOther, hHelp⟩, hStop⟩ | hStop
        · refine .inl ⟨group :: groups, ?_⟩
          rw [List.flatMap_cons, hWords, hGroups]
          rfl
        · exact .inr (.inl
            ⟨⟨other, List.mem_cons_of_mem _ hOther, hHelp⟩, hStop⟩)
        · exact .inr (.inr hStop)
  · refine .inr (.inl
      ⟨⟨argument, List.mem_cons_self, hHelp⟩, ?_⟩)
    rcases hStop with hStop | hStop
    · exact .inl (by rw [hStop]; rfl)
    · exact .inr (by rw [hStop]; rfl)
  · exact .inr (.inr ⟨message, by rw [hStop]; rfl⟩)

theorem endsKnown
    (words : List Text) :
    EndsKnown words := by
  have hNil : EndsKnown [] := fun _ => .inl ⟨[], rfl⟩
  fun_induction flagPlaces words with
  | case1 => exact hNil
  | case2 argument =>
      by_cases hFile : argument ∈ fileFlags
      · intro arguments
        have hStop : readFrom arguments [argument] =
            .error (incomplete argument) := by
          rw [readFrom, if_pos (takesFile_iff.mpr hFile)]
        exact .inr (.inr ⟨_, hStop⟩)
      · exact hNil.single hFile
  | case3 flag name rest ihRest ihNext =>
      by_cases hFile : flag ∈ fileFlags
      · exact ihRest.file hFile name
      · exact ihNext.single hFile

------------------------------------------------------------
-- Requests
------------------------------------------------------------

/- What has been said names a script and fits together. -/
structure Agree
    (arguments : Arguments) : Prop where
  named : arguments.script.isSome = true
  fewActions : arguments.actions.length ≤ 1
  apart : arguments.actions = [] ∨ arguments.out = none

/- The mode that the first action chooses. -/
def firstMode
    (arguments : Arguments) : Mode :=
  (arguments.actions.head?.map Prod.snd).getD (.make .write)

/- A mode is chosen, unless the actions are too many or beside a file. -/
theorem mode_cases
    (arguments : Arguments) :
    (arguments.actions.length ≤ 1 ∧
        (arguments.actions = [] ∨ arguments.out = none) ∧
        arguments.mode = .ok arguments.firstMode) ∨
      (¬(arguments.actions.length ≤ 1 ∧
          (arguments.actions = [] ∨ arguments.out = none)) ∧
        ∃ message, arguments.mode = .error (.misuse message)) := by
  fun_cases mode arguments <;> simp_all [firstMode]

/- What fits together is a request, and all else a misuse. -/
theorem request_cases
    (arguments : Arguments) :
    (arguments.Agree ∧
        ∃ script, arguments.script = some script ∧
          arguments.request =
            .compile script
              { mode := arguments.firstMode
                out := arguments.out.getD "output.c" }
              arguments.verbose) ∨
      ¬arguments.Agree ∧
        ∃ message, arguments.request = .misuse message := by
  rcases arguments.mode_cases with
    ⟨hFew, hApart, hMode⟩ | ⟨hNot, message, hMode⟩
  · cases hScript : arguments.script with
    | none =>
        right
        refine ⟨fun h => ?_, "error: missing input file", ?_⟩
        · simpa [hScript] using h.named
        · rw [request, hMode, hScript]
          rfl
    | some script =>
        left
        refine ⟨⟨by simp [hScript], hFew, hApart⟩, script, rfl, ?_⟩
        rw [request, hMode, hScript]
  · right
    refine ⟨fun h => hNot ⟨h.fewActions, h.apart⟩, message, ?_⟩
    rw [request, hMode]

theorem agree_after_iff
    {groups : List ArgumentGroup}
    (hFew : (groups.flatMap scripts).length ≤ 1) :
    (after {} groups).Agree ↔ AreAccepted groups := by
  have hScript : (after {} groups).script =
      (groups.flatMap scripts).head? := Option.none_or
  have hOut : (after {} groups).out =
      (groups.flatMap files).getLast? := Option.or_none
  have hNamed : (groups.flatMap scripts).head?.isSome = true ↔
      (groups.flatMap scripts).length = 1 := by
    cases hScripts : groups.flatMap scripts with
    | nil => simp
    | cons script rest => simp_all
  constructor
  · intro h
    refine ⟨?_, h.fewActions, ?_⟩
    · rw [← hNamed, ← hScript]
      exact h.named
    · have hApart := h.apart
      rwa [hOut, List.getLast?_eq_none_iff] at hApart
  · intro h
    refine ⟨?_, h.fewActions, ?_⟩
    · rw [hScript, hNamed]
      exact h.oneScript
    · rw [hOut, List.getLast?_eq_none_iff]
      exact h.apart

end Arguments

namespace Request

/-
  Groups ask for a script to be compiled if they are accepted,
  and are a misuse if not.
-/
theorem ofArguments_words
    (groups : List ArgumentGroup) :
    (AreAccepted groups ∧
        ∃ script, groups.flatMap scripts = [script] ∧
          ofArguments (groups.flatMap words) =
            .compile script (ArgumentGroup.options groups)
              (groups.any isVerbose)) ∨
      ¬AreAccepted groups ∧ ∃ message,
        ofArguments (groups.flatMap words) = .misuse message := by
  rcases Arguments.readFrom_words {} groups with
    ⟨hFew, hRead⟩ | ⟨hMany, message, hRead⟩
  · have hFinal : ofArguments (groups.flatMap words) =
        (Arguments.after {} groups).request := by
      rw [ofArguments, hRead]
    rw [hFinal, ← Arguments.agree_after_iff hFew]
    rcases Arguments.request_cases (Arguments.after {} groups) with
      ⟨hAgree, script, hScript, hRequest⟩ | hMisuse
    · left
      have hAccepted := (Arguments.agree_after_iff hFew).mp hAgree
      rcases List.length_eq_one_iff.mp hAccepted.oneScript with
        ⟨other, hOther⟩
      rw [Arguments.after, hOther] at hScript
      cases hScript
      refine ⟨hAgree, script, hOther, ?_⟩
      rw [hRequest]
      simp only [Arguments.after, Arguments.firstMode,
        Option.or_none, List.nil_append, Bool.false_or]
      rfl
    · exact .inr hMisuse
  · right
    refine ⟨fun h => ?_, message, by rw [ofArguments, hRead]⟩
    have hOne := h.oneScript
    simp only [Option.toList_none, List.nil_append] at hMany
    omega

end Request

------------------------------------------------------------
-- The Order of Groups
------------------------------------------------------------

namespace ArgumentGroup

theorem eq_of_perm_of_length_le_one
    {α : Type}
    {xs ys : List α}
    (hPerm : xs.Perm ys)
    (hLength : xs.length ≤ 1) :
    xs = ys := by
  match xs, hLength with
  | [], _ => exact hPerm.nil_eq
  | [x], _ => exact List.singleton_perm.mp hPerm

/- In any order, groups are accepted and name the same, files apart. -/
theorem AreAccepted.perm
    {groups others : List ArgumentGroup}
    (h : AreAccepted groups)
    (hPerm : groups.Perm others) :
    AreAccepted others ∧
      groups.flatMap scripts = others.flatMap scripts ∧
      groups.flatMap actions = others.flatMap actions ∧
      groups.any isVerbose = others.any isVerbose := by
  have hScripts : groups.flatMap scripts =
      others.flatMap scripts :=
    eq_of_perm_of_length_le_one (hPerm.flatMap_right scripts)
      (Nat.le_of_eq h.oneScript)
  have hActions : groups.flatMap actions =
      others.flatMap actions :=
    eq_of_perm_of_length_le_one (hPerm.flatMap_right actions)
      h.fewActions
  refine ⟨⟨?_, ?_, ?_⟩, hScripts, hActions, ?_⟩
  · rw [← hScripts]
    exact h.oneScript
  · rw [← hActions]
    exact h.fewActions
  · rw [← hActions]
    refine h.apart.imp_right fun hNone => ?_
    have hFiles := hPerm.flatMap_right files
    rw [hNone] at hFiles
    exact hFiles.nil_eq.symm
  · rw [Bool.eq_iff_iff, List.any_eq_true, List.any_eq_true]
    simp only [hPerm.mem_iff]

/- The order matters to the file that is written, and to nothing else. -/
theorem AreAccepted.options_perm
    {groups others : List ArgumentGroup}
    (h : AreAccepted groups)
    (hPerm : groups.Perm others) :
    options others =
      { options groups with
        out := (others.flatMap files).getLast?.getD
          (options groups).out } := by
  have hActions := (h.perm hPerm).2.2.1
  have hOut : (others.flatMap files).getLast?.getD "output.c" =
      (others.flatMap files).getLast?.getD
        (options groups).out := by
    cases hLast : (others.flatMap files).getLast? with
    | some name => rfl
    | none =>
        have hFiles := (hPerm.flatMap_right files).symm
        rw [List.getLast?_eq_none_iff.mp hLast] at hFiles
        rw [options, ← hFiles.nil_eq]
        rfl
  rw [options, hOut, ← hActions]
  rfl

end ArgumentGroup

namespace Request

/-
  Arguments ask for a script to be compiled exactly if they
  split into groups that are accepted.  All other arguments
  are a misuse, unless a flag asks for help.  In any other
  order, the groups ask for the same, but for the file that
  is written, which is the one named last.
-/
theorem ofArguments_compile_iff_groups
    (arguments : List Text) :
    ((∃ script options verbose,
        ofArguments arguments =
          .compile script options verbose) ↔
      ∃ groups, arguments = groups.flatMap words ∧
        AreAccepted groups) ∧
    ((∀ flag ∈ Arguments.flagPlaces arguments,
        flag ∉ helpFlags) →
      (¬∃ groups, arguments = groups.flatMap words ∧
        AreAccepted groups) →
      ∃ message, ofArguments arguments = .misuse message) ∧
    ∀ groups others, arguments = groups.flatMap words →
      AreAccepted groups → groups.Perm others →
      ∃ script, groups.flatMap scripts = [script] ∧
        ofArguments arguments =
          .compile script (ArgumentGroup.options groups)
            (groups.any isVerbose) ∧
        ofArguments (others.flatMap words) =
          .compile script
            { ArgumentGroup.options groups with
              out := (others.flatMap files).getLast?.getD
                (ArgumentGroup.options groups).out }
            (groups.any isVerbose) := by
  refine ⟨⟨?_, ?_⟩, ?_, ?_⟩
  · rintro ⟨script, options, verbose, hCompile⟩
    rcases Arguments.endsKnown arguments {} with
      ⟨groups, hGroups⟩ | ⟨-, hStop | hStop⟩ | ⟨message, hStop⟩
    · rcases ofArguments_words groups with
        ⟨hAccepted, -⟩ | ⟨-, message, hMisuse⟩
      · exact ⟨groups, hGroups, hAccepted⟩
      · rw [← hGroups, hCompile] at hMisuse
        contradiction
    all_goals
      rw [ofArguments, hStop] at hCompile
      contradiction
  · rintro ⟨groups, rfl, hAccepted⟩
    rcases ofArguments_words groups with
      ⟨-, script, -, hCompile⟩ | ⟨hNot, -⟩
    · exact ⟨_, _, _, hCompile⟩
    · contradiction
  · intro hHelp hNot
    rcases Arguments.endsKnown arguments {} with
      ⟨groups, hGroups⟩ | ⟨⟨flag, hFlag, hAsks⟩, -⟩ | ⟨message, hStop⟩
    · rcases ofArguments_words groups with
        ⟨hAccepted, -⟩ | ⟨-, hMisuse⟩
      · exact absurd ⟨groups, hGroups, hAccepted⟩ hNot
      · rwa [← hGroups] at hMisuse
    · exact absurd hAsks (hHelp flag hFlag)
    · exact ⟨message, by rw [ofArguments, hStop]⟩
  · rintro groups others rfl hAccepted hPerm
    rcases hAccepted.perm hPerm with
      ⟨hOthers, hScripts, -, hVerbose⟩
    rcases ofArguments_words groups with
      ⟨-, script, hScript, hCompile⟩ | ⟨hNot, -⟩
    · refine ⟨script, hScript, hCompile, ?_⟩
      rcases ofArguments_words others with
        ⟨-, other, hOther, hCompileOther⟩ | ⟨hNot, -⟩
      · rw [← hScripts, hScript] at hOther
        cases hOther
        rw [hCompileOther, hAccepted.options_perm hPerm, hVerbose]
      · contradiction
    · contradiction

/-
  The file that is named last is written, also if it is spelt
  like a flag.  A flag that asks for help is then no such
  flag, and it does not excuse an action beside a file.
-/
theorem ofArguments_compile_iff_groups_of_files :
    let check := ArgumentGroup.file "-o" "--check"
      (by simp [fileFlags])
    let joined := ArgumentGroup.joined "b.c"
      (by simp [Text.ofString_eq])
    let script := ArgumentGroup.script "x.sh"
      (by simp [Text.ofString_eq])
    let groups := [check, joined, script]
    let others := [script, joined, check]
    let mixed : List Text := ["-o", "-h", "--check", "x.sh"]
    AreAccepted groups ∧ groups.Perm others ∧
      ofArguments (groups.flatMap words) =
        .compile "x.sh" { out := "b.c" } false ∧
      ofArguments (others.flatMap words) =
        .compile "x.sh" { out := "--check" } false ∧
      (∀ flag ∈ Arguments.flagPlaces mixed, flag ∉ helpFlags) ∧
      (¬∃ groups, mixed = groups.flatMap words ∧
        AreAccepted groups) ∧
      ∃ message, ofArguments mixed = .misuse message := by
  intro check joined script groups others mixed
  have hAccepted : AreAccepted groups :=
    ⟨rfl, Nat.zero_le 1, .inl rfl⟩
  have hPerm : groups.Perm others :=
    (List.reverse_perm groups).symm
  rcases (ofArguments_compile_iff_groups _).2.2 groups others rfl
    hAccepted hPerm with ⟨name, hName, hGroups, hOthers⟩
  cases hName
  refine ⟨hAccepted, hPerm, hGroups, hOthers, ?_⟩
  rcases ofArguments_compile_iff_groups mixed with
    ⟨hCompile, hMisuse, -⟩
  have hHelp : ∀ flag ∈ Arguments.flagPlaces mixed,
      flag ∉ helpFlags := by
    unfold mixed helpFlags
    repeat rw [Text.ofString_ofList]
    decide +kernel
  have hNot : ¬∃ groups, mixed = groups.flatMap words ∧
      AreAccepted groups := by
    rw [← hCompile]
    rintro ⟨name, options, verbose, hRequest⟩
    have hMixed : ofArguments mixed =
        .misuse "error: --check cannot be used with --out" := by
      unfold mixed
      repeat rw [Text.ofString_ofList]
      decide +kernel
    rw [hMixed] at hRequest
    contradiction
  exact ⟨hHelp, hNot, hMisuse hHelp hNot⟩

end Request

end ShellToC
