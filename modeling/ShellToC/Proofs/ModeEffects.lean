import ShellToC.CommandLine
import ShellToC.File.Tree
import ShellToC.Proofs.Locality

/-
  This file compares what is done with a script in every
  mode: what each mode counts, shows, writes and returns.

  Files are kept by a file system, of which no more is known
  than that a write changes nothing but the place that its
  path leads to.  File trees are such a system.

  Key definitions include:
    * `FileSystem`
    * `FileSystem.access`
    * `FileTree.system`
    * `FileSystem.run`
    * `FileSystem.Delivers`
    * `FileSystem.Returns`

  Main declarations:
    * `FileSystem.delivers_of_read`
    * `FileSystem.returns_of_read`
    * `FileSystem.modes_differ_in_delivery`
-/

namespace ShellToC

------------------------------------------------------------
-- File Systems
------------------------------------------------------------

/-
  How a state keeps files.  Reading leaves the state as it
  is.  A write may fail, and even then it changes no other
  place than that of its path.
-/
structure FileSystem (σ : Type) where
  read : σ → Text → Except FileFault Text
  write : σ → Text → Text → Except FileFault Unit × σ
  workingDir : σ → Option Text
  /- What stands at a place. -/
  lookup : σ → Place → Option Entry
  /- The place of a path to be written, if there is one. -/
  target? : σ → Text → Option Place
  lookup_write : ∀ state path text place,
    target? state path ≠ some place →
      lookup (write state path text).2 place = lookup state place
  lookup_target : ∀ state path text,
    (write state path text).1 = .ok () →
      ∃ place, target? state path = some place ∧
        lookup (write state path text).2 place =
          some (.file (FileTree.encode text))

/- Access to the files of a system. -/
def FileSystem.access
    {σ : Type}
    (fs : FileSystem σ) : FileAccess (StateM σ) where
  read path := fun state => (fs.read state path, state)
  write path text := fun state => fs.write state path text
  workingDir := fun state => (fs.workingDir state, state)

------------------------------------------------------------
-- File Trees
------------------------------------------------------------

namespace FileTree

/- The place of a path to be written. -/
def target?
    (tree : FileTree)
    (path : Text) : Option Place :=
  ((checkPath path).bind fun _ => tree.target path).toOption

/- Entries of other places make no difference to what is found. -/
theorem lookup_filter_of_ne
    {place other : Place}
    (h : other ≠ place)
    (entries : List (Place × Entry)) :
    (entries.filter (·.1 != place)).lookup other =
      entries.lookup other := by
  induction entries with
  | nil => rfl
  | cons first entries ih =>
      rcases first with ⟨found, entry⟩
      by_cases hFound : found = place
      · have hOther : (other == found) = false := by
          simpa [hFound] using h
        rw [List.filter_cons_of_neg (by simp [hFound]), ih,
          List.lookup_cons, hOther]
      · rw [List.filter_cons_of_pos (by simp [hFound]),
          List.lookup_cons, List.lookup_cons, ih]

/- What is put at one place is not found at another. -/
theorem lookup_insert_of_ne
    (tree : FileTree)
    {place other : Place}
    (h : other ≠ place)
    (entry : Entry) :
    (tree.insert place entry).lookup other =
      tree.lookup other := by
  cases other with
  | nil => rfl
  | cons part parts =>
      have hOther : (part :: parts == place) = false := by
        simpa using h
      change ((place, entry) :: tree.entries.filter
        (·.1 != place)).lookup (part :: parts) = _
      rw [List.lookup_cons, hOther]
      exact lookup_filter_of_ne h tree.entries

/- What is put at a place below the root is found there. -/
theorem lookup_insert_self
    (tree : FileTree)
    {place : Place}
    (h : place ≠ [])
    (entry : Entry) :
    (tree.insert place entry).lookup place = some entry := by
  cases place with
  | nil => exact absurd rfl h
  | cons part parts => exact List.lookup_cons_self

/- What comes of two steps comes of the second after the first. -/
theorem exists_ok_of_bind
    {α β : Type}
    {first : Except FileFault α}
    {next : α → Except FileFault β}
    {result : β}
    (h : first.bind next = .ok result) :
    ∃ mid, first = .ok mid ∧ next mid = .ok result := by
  cases first with
  | error fault => cases h
  | ok mid => exact ⟨mid, rfl, h⟩

theorem eq_of_placeFor
    {tree : FileTree}
    {here place : Place}
    {name : Text}
    {slash : Bool}
    (h : tree.placeFor here name slash = .ok place) :
    place = here ++ [name] := by
  rcases exists_ok_of_bind h with ⟨-, -, hPlace⟩
  split at hPlace
  · cases hPlace
  · cases hPlace
    rfl

/- A file is written to a place below the root. -/
theorem ne_nil_of_target
    {tree : FileTree}
    {path : Text}
    {place : Place}
    (h : tree.target path = .ok place) :
    place ≠ [] := by
  simp only [target] at h
  split at h
  · cases h
  · split at h
    · rcases exists_ok_of_bind h with ⟨here, -, hPlace⟩
      cases hPlace
    · rcases exists_ok_of_bind h with ⟨here, -, hPlace⟩
      rw [eq_of_placeFor hPlace]
      simp

/- Write to a tree, which stays as it is if that fails. -/
def writeTo
    (tree : FileTree)
    (path text : Text) : Except FileFault Unit × FileTree :=
  match tree.write path text with
  | .ok after => (.ok (), after)
  | .error fault => (.error fault, tree)

/- A write puts a file at the place of its path, or does nothing. -/
theorem writeTo_cases
    (tree : FileTree)
    (path text : Text) :
    (∃ place, tree.target? path = some place ∧ place ≠ [] ∧
      tree.writeTo path text =
        (.ok (), tree.insert place (.file (encode text)))) ∨
    tree.target? path = none ∧
      ∃ fault, tree.writeTo path text = (.error fault, tree) := by
  unfold writeTo write target?
  cases hCheck : checkPath path with
  | error fault => exact Or.inr ⟨rfl, fault, rfl⟩
  | ok =>
      cases hTarget : tree.target path with
      | error fault =>
          right
          refine ⟨?_, fault, ?_⟩
          · simp [Except.bind, Except.toOption]
          · simp [Except.bind, Except.map]
      | ok place =>
          left
          refine ⟨place, ?_, ne_nil_of_target hTarget, ?_⟩
          · simp [Except.bind, Except.toOption]
          · simp [Except.bind, Except.map]

/- File trees keep files. -/
def system : FileSystem FileTree where
  read := read
  write := writeTo
  workingDir tree := some tree.cwdPath
  lookup := lookup
  target? := target?
  lookup_write := by
    intro tree path text place hPlace
    rcases tree.writeTo_cases path text with
      ⟨target, hTarget, -, hWrite⟩ | ⟨-, fault, hWrite⟩
    · rw [hWrite]
      refine tree.lookup_insert_of_ne ?_ _
      rintro rfl
      exact hPlace hTarget
    · rw [hWrite]
  lookup_target := by
    intro tree path text hOk
    rcases tree.writeTo_cases path text with
      ⟨target, hTarget, hBelow, hWrite⟩ | ⟨-, fault, hWrite⟩
    · refine ⟨target, hTarget, ?_⟩
      rw [hWrite]
      exact tree.lookup_insert_self hBelow _
    · rw [hWrite] at hOk
      cases hOk

/- The files of a tree are accessed as those of the system. -/
theorem access_eq : access = system.access := rfl

end FileTree

------------------------------------------------------------
-- Reports
------------------------------------------------------------

/- Errors are counted if there are some. -/
theorem Diagnostic.errorCount_eq_zero_iff
    (ds : Array Diagnostic) :
    errorCount ds = 0 ↔ ∀ d ∈ ds, d.level ≠ .error := by
  simp [errorCount, Array.countP_eq_zero, isError]

/- What is reported about a script depends on nothing else. -/
theorem Program.diagnostics_ofScript
    (file unit script : Text) :
    (ofScript file unit script).diagnostics =
      ((Command.eventsToEnd [] 0 (Command.ofScript script)).flatMap
        Event.reports).toArray :=
  Array.ext' (source_eq_fill file unit script).2.1

------------------------------------------------------------
-- Runs
------------------------------------------------------------

namespace FileSystem

variable {σ : Type}
  (fs : FileSystem σ)
  (state : σ)
  (options : CompileOptions)
  (path : Text)

/- What comes of the script at a path in a mode, and the state after it. -/
def run
    (mode : Mode) : Compiled × σ :=
  compile fs.access { options with mode } path state

/- The program that a script at the path is made into. -/
def programOf
    (script : Text) : Program :=
  Program.ofScript (Path.display (fs.workingDir state) path)
    options.unit script

/- What the log says before a program is made. -/
def makingRecord : Record :=
  ⟨.debug, "translating " ++
    Path.display (fs.workingDir state) path⟩

theorem run_eq
    (mode : Mode) :
    fs.run state options path mode =
      match fs.read state path with
      | .error fault =>
          (⟨.error (.unreadable path fault), []⟩, state)
      | .ok script =>
          match mode with
          | .list => (listStatements script, state)
          | .make delivery =>
              let delivered := deliver fs.access options.out
                (fs.programOf state options path script) delivery
                state
              ({ delivered.1 with
                log := fs.makingRecord state path ::
                  delivered.1.log }, delivered.2) := by
  change (match fs.read state path with
    | .error fault => pure ⟨.error (.unreadable path fault), []⟩
    | .ok script =>
        match mode with
        | .list => pure (listStatements script)
        | .make delivery => makeProgram fs.access
            { options with mode } delivery path script :
      StateM σ Compiled) state = _
  cases fs.read state path with
  | error fault => rfl
  | ok script =>
      cases mode with
      | list => rfl
      | make delivery => rfl

/- Writing a program ends as the write does. -/
theorem deliver_write
    (program : Program) :
    let delivered := deliver fs.access options.out program .write
      state
    let written := fs.write state options.out program.source
    delivered.2 = written.2 ∧
      delivered.1.result =
        (written.1.mapError (Failure.unwritable options.out)).map
          fun _ => ⟨[], program.errorCount⟩ := by
  intro delivered written
  rcases hWrite : written with ⟨result, after⟩
  have hAccess : fs.access.write options.out program.source state =
      (result, after) := hWrite
  have hDelivered : delivered =
      writeProgram fs.access options.out program state := rfl
  simp only [writeProgram, bind, StateT.bind, hAccess] at hDelivered
  rw [hDelivered]
  cases result with
  | error fault => exact ⟨rfl, rfl⟩
  | ok => exact ⟨rfl, rfl⟩

/- A script that cannot be read is all that a run comes to. -/
theorem run_of_error
    {fault : FileFault}
    (h : fs.read state path = .error fault)
    (mode : Mode) :
    fs.run state options path mode =
      (⟨.error (.unreadable path fault), []⟩, state) := by
  rw [run_eq, h]

/- No mode but one changes the state. -/
theorem state_run
    {mode : Mode}
    (h : mode ≠ .make .write) :
    (fs.run state options path mode).2 = state := by
  rw [run_eq]
  cases fs.read state path with
  | error fault => rfl
  | ok script =>
      cases mode with
      | list => rfl
      | make delivery =>
          cases delivery with
          | write => exact absurd rfl h
          | print => rfl
          | check => rfl

------------------------------------------------------------
-- Readable Scripts
------------------------------------------------------------

/-
  What the modes make of a readable script, with the text of
  its program and the number of its errors.  All of them
  count the same errors.  One shows the text that another
  writes, whether there are errors or not.
-/
structure Delivers
    (source : Text)
    (errors : Nat) : Prop where
  check : (fs.run state options path (.make .check)).1.result =
    .ok ⟨if errors = 0 then "OK" else [], errors⟩
  print : (fs.run state options path (.make .print)).1.result =
    .ok ⟨source, errors⟩
  state_write : (fs.run state options path (.make .write)).2 =
    (fs.write state options.out source).2
  write : (fs.write state options.out source).1 = .ok () →
    (fs.run state options path (.make .write)).1.result =
        .ok ⟨[], errors⟩ ∧
      ∃ place, fs.target? state options.out = some place ∧
        fs.lookup
            (fs.run state options path (.make .write)).2 place =
          some (.file (FileTree.encode source))
  write_failure : ∀ fault,
    (fs.write state options.out source).1 = .error fault →
      (fs.run state options path (.make .write)).1.result =
        .error (.unwritable options.out fault)

theorem delivers_of_read
    {script : Text}
    (h : fs.read state path = .ok script) :
    fs.Delivers state options path
      (fs.programOf state options path script).source
      (fs.programOf state options path script).errorCount := by
  have hRun := fs.run_eq state options path (.make .write)
  simp only [h] at hRun
  rcases fs.deliver_write state options
      (fs.programOf state options path script) with
    ⟨hState, hResult⟩
  rw [← congrArg Prod.snd hRun] at hState
  refine ⟨?_, ?_, hState, ?_, ?_⟩
  · rw [run_eq, h]
    rfl
  · rw [run_eq, h]
    rfl
  · intro hOk
    rw [hState, hRun, hResult, hOk]
    exact ⟨rfl, fs.lookup_target _ _ _ hOk⟩
  · intro fault hFault
    rw [hRun, hResult, hFault]
    rfl

/- The one mode that writes changes the place of the output. -/
theorem lookup_run_write
    {place : Place}
    (h : fs.target? state options.out ≠ some place) :
    fs.lookup (fs.run state options path (.make .write)).2 place =
      fs.lookup state place := by
  cases hRead : fs.read state path with
  | error fault => rw [fs.run_of_error state options path hRead]
  | ok script =>
      rw [(fs.delivers_of_read state options path hRead).state_write]
      exact fs.lookup_write _ _ _ _ h

------------------------------------------------------------
-- Exit Codes
------------------------------------------------------------

/- The exit code of a run. -/
def exitCode
    (filter : Filter)
    (mode : Mode) : Nat :=
  (CommandLine.report filter mode
    (fs.run state options path mode).1).code

/- The exit code of a run that does not fail. -/
theorem exitCode_of_ok
    (filter : Filter)
    {mode : Mode}
    {outcome : Outcome}
    (h : (fs.run state options path mode).1.result = .ok outcome) :
    fs.exitCode state options path filter mode =
      if outcome.errors = 0 then 0 else 2 := by
  simp only [exitCode, CommandLine.report, h, Outcome.status?]
  by_cases hErrors : outcome.errors = 0
  · simp only [hErrors, if_true]
  · simp only [hErrors, if_false]
    rfl

/- The exit code of a run that fails. -/
theorem exitCode_of_error
    (filter : Filter)
    {mode : Mode}
    {failure : Failure}
    (h : (fs.run state options path mode).1.result =
      .error failure) :
    fs.exitCode state options path filter mode = failure.code := by
  simp only [exitCode, CommandLine.report, h]

/-
  The exit codes for a readable script.  A list of its
  statements always succeeds.  A program that cannot be
  written is 1, and else 2 stands for errors in the script.
-/
structure Returns
    (filter : Filter)
    (source : Text)
    (diagnostics : Array Diagnostic) : Prop where
  list : fs.exitCode state options path filter .list = 0
  write_failure : ∀ fault,
    (fs.write state options.out source).1 = .error fault →
      fs.exitCode state options path filter (.make .write) = 1
  make : ∀ delivery,
    (delivery = .write →
      (fs.write state options.out source).1 = .ok ()) →
    let code := fs.exitCode state options path filter
      (.make delivery)
    (code = 2 ↔ ∃ d ∈ diagnostics, d.level = .error) ∧
      (code = 0 ↔ ∀ d ∈ diagnostics, d.level ≠ .error)

theorem returns_of_read
    {script : Text}
    (h : fs.read state path = .ok script)
    (filter : Filter) :
    fs.Returns state options path filter
      (fs.programOf state options path script).source
      (fs.programOf state options path script).diagnostics := by
  have hDelivers := fs.delivers_of_read state options path h
  constructor
  · rw [exitCode, run_eq, h]
    rfl
  · intro fault hFault
    exact fs.exitCode_of_error state options path filter
      (hDelivers.write_failure fault hFault)
  · intro delivery hWrite code
    have hResult : ∃ text,
        (fs.run state options path (.make delivery)).1.result =
          .ok ⟨text,
            (fs.programOf state options path script).errorCount⟩ := by
      cases delivery with
      | write => exact ⟨_, (hDelivers.write (hWrite rfl)).1⟩
      | print => exact ⟨_, hDelivers.print⟩
      | check => exact ⟨_, hDelivers.check⟩
    rcases hResult with ⟨text, hResult⟩
    have hCode : code = _ :=
      fs.exitCode_of_ok state options path filter hResult
    dsimp only at hCode
    have hTwo : code = 2 ↔
        ¬ (fs.programOf state options path script).errorCount = 0 := by
      rw [hCode]
      split <;> simp [*]
    have hZero : code = 0 ↔
        (fs.programOf state options path script).errorCount = 0 := by
      rw [hCode]
      split <;> simp [*]
    have hErrors := Diagnostic.errorCount_eq_zero_iff
      (fs.programOf state options path script).diagnostics
    refine ⟨hTwo.trans ((not_congr hErrors).trans ?_),
      hZero.trans hErrors⟩
    simp

/-
  The modes make the same of a script, and differ in what
  they do with it.  One of them changes files, and no other
  than the one it writes.  A script that cannot be read is
  left at that.  The exit code of the command is that of the
  run it asks for.
-/
theorem modes_differ_in_delivery
    (filter : Filter) :
    let run := fs.run state options path
    let code := fs.exitCode state options path filter
    (∀ mode, mode ≠ .make .write → (run mode).2 = state) ∧
    (∀ place, fs.target? state options.out ≠ some place →
      fs.lookup (run (.make .write)).2 place =
        fs.lookup state place) ∧
    (∀ fault, fs.read state path = .error fault → ∀ mode,
      (run mode).2 = state ∧ code mode = 1) ∧
    (∀ script, fs.read state path = .ok script →
      ∃ source diagnostics,
        (∀ file unit, (Program.ofScript file unit
          script).diagnostics = diagnostics) ∧
        fs.Delivers state options path source
          (Diagnostic.errorCount diagnostics) ∧
        fs.Returns state options path filter source
          diagnostics) ∧
    (∀ setting arguments verbose,
      Request.ofArguments arguments =
          .compile path options verbose →
        CommandLine.run fs.access setting arguments state =
          (CommandLine.report (CommandLine.filter setting verbose)
            options.mode (run options.mode).1,
            (run options.mode).2)) := by
  intro run code
  refine ⟨fun mode hMode => fs.state_run state options path hMode,
    fun place hPlace =>
      fs.lookup_run_write state options path hPlace, ?_, ?_, ?_⟩
  · intro fault hFault mode
    have hRun := fs.run_of_error state options path hFault mode
    have hCode : code mode = (Failure.unreadable path fault).code :=
      fs.exitCode_of_error state options path filter
        (congrArg (·.1.result) hRun)
    exact ⟨congrArg Prod.snd hRun, hCode⟩
  · intro script hRead
    refine ⟨_, (fs.programOf state options path script).diagnostics,
      ?_, fs.delivers_of_read state options path hRead,
      fs.returns_of_read state options path hRead filter⟩
    intro file unit
    exact (Program.diagnostics_ofScript file unit script).trans
      (Program.diagnostics_ofScript _ _ script).symm
  · intro setting arguments verbose hRequest
    rw [CommandLine.run, hRequest]
    rfl

/-
  A script with an error.  Its program is written next to it,
  and cannot be written in place of a directory.
-/
theorem modes_differ_in_delivery_of_fi :
    let tree : FileTree :=
      (FileTree.start ["w"]).add ["w", "s.sh"]
        (.file (FileTree.encode "fi"))
    let fs := FileTree.system
    let options : CompileOptions := { out := "o.c" }
    let after := (fs.run tree options "s.sh" (.make .write)).2
    (fs.run tree options "s.sh" (.make .check)).2 = tree ∧
    fs.lookup after ["w", "s.sh"] =
      some (.file (FileTree.encode "fi")) ∧
    (∃ source,
      (fs.run tree options "s.sh" (.make .print)).1.result =
          .ok ⟨source, 1⟩ ∧
        fs.lookup after ["w", "o.c"] =
          some (.file (FileTree.encode source))) ∧
    fs.exitCode tree options "s.sh" .standard
        (.make .write) = 2 ∧
    fs.exitCode tree { out := "/" } "s.sh" .standard
        (.make .write) = 1 ∧
    fs.exitCode tree options "t.sh" .standard
        (.make .write) = 1 ∧
    (CommandLine.run FileTree.access none
        ["s.sh", "--out=o.c"] tree).1.code = 2 := by
  intro tree fs options after
  have hThere : fs.lookup tree ["w", "s.sh"] =
      some (.file (FileTree.encode "fi")) := by
    decide +kernel
  have hRead : fs.read tree "s.sh" = .ok "fi" := by
    have hText : (fs.read tree "s.sh").toOption =
        some (Text.ofString "fi") := by
      decide +kernel
    cases hResult : fs.read tree "s.sh" with
    | error fault =>
        rw [hResult] at hText
        cases hText
    | ok text =>
        rw [hResult] at hText
        cases hText
        rfl
  have hMissing : ∃ fault, fs.read tree "t.sh" = .error fault := by
    have hNone : (fs.read tree "t.sh").toOption = none := by
      decide +kernel
    cases hResult : fs.read tree "t.sh" with
    | error fault => exact ⟨fault, rfl⟩
    | ok text =>
        rw [hResult] at hNone
        cases hNone
  have hTarget : fs.target? tree "o.c" =
      some [Text.ofString "w", Text.ofString "o.c"] := by
    decide +kernel
  have hWritten : ∀ source,
      (fs.write tree "o.c" source).1 = .ok () := by
    intro source
    rcases tree.writeTo_cases "o.c" source with
      ⟨place, -, -, hWrite⟩ | ⟨hNone, -⟩
    · exact congrArg Prod.fst hWrite
    · cases hTarget.symm.trans hNone
  have hRoot : ∀ source, ∃ fault,
      (fs.write tree "/" source).1 = .error fault := by
    have hNone : fs.target? tree "/" = none := by
      decide +kernel
    intro source
    rcases tree.writeTo_cases "/" source with
      ⟨place, hPlace, -⟩ | ⟨-, fault, hWrite⟩
    · cases hNone.symm.trans hPlace
    · exact ⟨fault, congrArg Prod.fst hWrite⟩
  have hRequest :
      Request.ofArguments ["s.sh", "--out=o.c"] =
        .compile "s.sh" options false := by
    decide +kernel
  have hFaulty : ∃ d ∈ (Program.ofScript [] [] "fi").diagnostics,
      d.level = .error := by
    decide +kernel
  have hCount : Diagnostic.errorCount
      (Program.ofScript [] [] "fi").diagnostics = 1 := by
    decide +kernel
  rcases modes_differ_in_delivery fs tree options "s.sh"
      .standard with ⟨hSame, hElse, -, hModes, hRun⟩
  rcases hModes "fi" hRead with
    ⟨source, diagnostics, hReports, hDelivers, hReturns⟩
  rw [← hReports [] [], hCount] at hDelivers
  rw [← hReports [] []] at hReturns
  have hCode := (hReturns.make .write
    fun _ => hWritten source).1.mpr hFaulty
  refine ⟨hSame _ (by decide), ?_, ?_, hCode, ?_, ?_, ?_⟩
  · have hKept := hElse ["w", "s.sh"] (by decide +kernel)
    exact hKept.trans hThere
  · rcases hDelivers.write (hWritten source) with
      ⟨-, place, hPlace, hFile⟩
    cases hTarget.symm.trans hPlace
    exact ⟨source, hDelivers.print, hFile⟩
  · rcases (modes_differ_in_delivery fs tree { out := "/" }
        "s.sh" .standard).2.2.2.1 "fi" hRead with
      ⟨source, _, -, -, hReturns⟩
    rcases hRoot source with ⟨fault, hFault⟩
    exact hReturns.write_failure fault hFault
  · rcases modes_differ_in_delivery fs tree options "t.sh"
        .standard with ⟨-, -, hFails, -⟩
    rcases hMissing with ⟨fault, hFault⟩
    exact (hFails fault hFault _).2
  · rw [FileTree.access_eq, hRun none _ false hRequest]
    exact hCode

end FileSystem

end ShellToC
