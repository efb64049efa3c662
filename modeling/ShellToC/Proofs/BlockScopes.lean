import ShellToC.Proofs.StatementScopes

/-
  This file shows that the lines of every script pass: the
  open scopes follow the open blocks, and a scope holds what
  the end of the block inside of it is going to free.

  Which keyword closes a block does not matter, since all of
  them write what the block has set aside for its end.

  Key definitions include:
    * `Frame.places`
    * `Scoping.Awaits`
    * `Scoping.Matches`
    * `Event.Carries`

  Main declarations:
    * `Event.carries_close`
    * `Event.carries_openForItems`
    * `Command.carries_events`
    * `Draft.exists_passes_ofScript`
-/

namespace ShellToC

------------------------------------------------------------
-- Blocks and Scopes
------------------------------------------------------------

namespace Frame

/- The places that the end of the block frees. -/
def places
    (frame : Frame) : List HeapPlace :=
  frame.epilogue.filterMap Line.freed?

/- The end of the block only frees, and nothing twice. -/
structure OnlyFrees
    (frame : Frame) : Prop where
  frees : ∀ line ∈ frame.epilogue, line.freed?.isSome = true
  nodup : frame.places.Nodup

theorem onlyFrees_of_epilogue_eq_nil
    {frame : Frame}
    (h : frame.epilogue = []) :
    frame.OnlyFrees :=
  ⟨by simp [h], by simp [places, h]⟩

end Frame

namespace Scoping

/-
  The innermost scope holds the given places, and the scope
  around each block holds what the end of the block frees.
-/
def Awaits : List HeapPlace → List Frame → List Scope → Prop
  | held, [], scopes =>
      ∃ scope, scopes = [scope] ∧ scope.held = held
  | held, frame :: blocks, scopes =>
      ∃ scope outer, scopes = scope :: outer ∧
        scope.held = held ∧ Awaits frame.places blocks outer

/- The open scopes are those of the open blocks. -/
structure Matches
    (blocks : List Frame)
    (loops : Nat)
    (state : Scoping) : Prop where
  sound : state.IsSound
  loops : state.OnlyLoops loops
  frames : ∀ frame ∈ blocks, frame.OnlyFrees
  awaits : Awaits [] blocks state.scopes

theorem matches_start : start.Matches [] 0 := by
  refine ⟨isSound_start, ⟨?_, ?_, ?_, ?_⟩, by simp,
    {}, rfl, rfl⟩
  · exact List.cons_ne_nil _ _
  · simp [start]
  · simp [start]
  · simp [start]

theorem Awaits.exists_scope
    {held : List HeapPlace}
    {blocks : List Frame}
    {scopes : List Scope}
    (h : Awaits held blocks scopes) :
    ∃ scope outer, scopes = scope :: outer ∧
      scope.held = held := by
  cases blocks with
  | nil =>
      rcases h with ⟨scope, hScopes, hHeld⟩
      exact ⟨scope, [], hScopes, hHeld⟩
  | cons frame blocks =>
      rcases h with ⟨scope, outer, hScopes, hHeld, _⟩
      exact ⟨scope, outer, hScopes, hHeld⟩

/- What the innermost scope holds has no bearing on the others. -/
theorem Awaits.replace
    {held : List HeapPlace}
    {blocks : List Frame}
    {scope : Scope}
    {outer : List Scope}
    (h : Awaits held blocks (scope :: outer))
    (later : Scope) :
    Awaits later.held blocks (later :: outer) := by
  cases blocks with
  | nil =>
      rcases h with ⟨_, hScopes, _⟩
      rw [(List.cons.inj hScopes).2]
      exact ⟨later, rfl, rfl⟩
  | cons frame blocks =>
      rcases h with ⟨_, _, hScopes, _, hOuter⟩
      rw [(List.cons.inj hScopes).2]
      exact ⟨later, _, rfl, rfl, hOuter⟩

------------------------------------------------------------
-- Variables of Loops
------------------------------------------------------------

theorem OnlyLoops.mono
    {n m : Nat}
    {state : Scoping}
    (h : state.OnlyLoops n)
    (hle : n ≤ m) :
    state.OnlyLoops m := by
  have hLater {l : Local} (hl : l.IsOfLoop n) :
      l.IsOfLoop m := by
    rcases hl with ⟨k, hLoop, hk⟩
    exact ⟨k, hLoop, Nat.le_trans hk hle⟩
  exact ⟨h.nonempty,
    fun scope hScope l hl => hLater (h.names scope hScope l hl),
    fun scope hScope l hl => hLater (h.gone scope hScope l hl),
    fun l hl => hLater (h.taken l hl)⟩

/- The variable was neither declared nor freed so far. -/
structure Lacks
    (state : Scoping)
    (l : Local) : Prop where
  names : ∀ scope ∈ state.scopes, l ∉ scope.names
  gone : ∀ scope ∈ state.scopes, l ∉ scope.gone
  taken : l ∉ state.taken

/- The variables of further loops are new. -/
theorem OnlyLoops.lacks
    {n : Nat}
    {state : Scoping}
    (h : state.OnlyLoops n)
    {l : Local}
    {k : Nat}
    (hLoop : l.loop? = some k)
    (hk : n < k) :
    state.Lacks l := by
  have hNew : ¬ l.IsOfLoop n := by
    rintro ⟨other, hOther, hle⟩
    rw [hLoop, Option.some.injEq] at hOther
    omega
  exact ⟨fun scope hScope hl => hNew (h.names scope hScope l hl),
    fun scope hScope hl => hNew (h.gone scope hScope l hl),
    fun hl => hNew (h.taken l hl)⟩

/- A line may declare a new variable. -/
theorem Lacks.fits
    {state : Scoping}
    {l : Local}
    (h : state.Lacks l)
    (hScopes : state.scopes ≠ [])
    {line : Line}
    (hDeclared : line.declared? = some l)
    (hLocals : ∀ other ∈ line.locals, other = l)
    (hCloses : line.closes = 0)
    (hFreed : line.freed? = none) :
    line.Fits state := by
  refine ⟨?_, ?_, ?_, ?_, ?_, ?_⟩
  · rw [hCloses]
    exact List.length_pos_iff.mpr hScopes
  · simp [hCloses]
  · intro other hOther
    rw [hDeclared, Option.some.injEq] at hOther
    subst hOther
    refine ⟨?_, h.taken⟩
    intro hKnown
    rcases List.mem_flatMap.mp hKnown with
      ⟨scope, hScope, hName⟩
    exact h.names scope hScope hName
  · intro _ other hOther
    rw [hLocals other hOther]
    exact Or.inl hDeclared
  · intro _ other hOther
    rw [hLocals other hOther]
    exact h.gone
  · simp [hFreed]

/- A line that declares variables of loops, if any. -/
theorem OnlyLoops.after
    {n : Nat}
    {state : Scoping}
    (h : state.OnlyLoops n)
    (hSound : state.IsSound)
    {line : Line}
    (hFits : line.Fits state)
    (hDeclared : ∀ l, line.declared? = some l → l.IsOfLoop n) :
    (state.after line).OnlyLoops n := by
  have hNew : ∀ l ∈ line.declared?.toList, l.IsOfLoop n := by
    intro l hl
    exact hDeclared l (by simpa using hl)
  have hFreed : ∀ l ∈ line.freed?.toList.map HeapPlace.owner,
      l.IsOfLoop n := by
    intro l hl
    rcases List.mem_map.mp hl with ⟨place, hPlace, rfl⟩
    rcases hFits.holds place (by simpa using hPlace) with
      ⟨scope, lower, hScopes, hHeld⟩
    have hScope : scope ∈ state.scopes := by simp [hScopes]
    exact h.names scope hScope _
      (hSound.owned scope hScope place hHeld)
  -- A scope behind the line is old, or one that the line adds to.
  have hScopes : ∀ next ∈ (state.after line).scopes,
      (∀ l ∈ next.names, l.IsOfLoop n) ∧
        ∀ l ∈ next.gone, l.IsOfLoop n := by
    intro next hNext
    rcases List.mem_iff_append.mp hNext with
      ⟨behind, lower, hAfter⟩
    have hOld (scope : Scope)
        (hNames : ∀ l ∈ scope.names, l.IsOfLoop n)
        (hGone : ∀ l ∈ scope.gone, l.IsOfLoop n) :
        (∀ l ∈ (scope.take line).names, l.IsOfLoop n) ∧
          ∀ l ∈ (scope.take line).gone, l.IsOfLoop n :=
      ⟨List.forall_mem_append.mpr ⟨hNames, hNew⟩,
        List.forall_mem_append.mpr ⟨hGone, hFreed⟩⟩
    rcases exists_before_scopes hFits.closes_lt hAfter with
      ⟨_, rfl⟩ | ⟨upper, scope, hBefore, _, _, hScope⟩
    · exact hOld {} (by simp) (by simp)
    · have hMem : scope ∈ state.scopes := by simp [hBefore]
      rcases hScope with ⟨rfl, _⟩ | ⟨rfl, _⟩
      · exact ⟨h.names _ hMem, h.gone _ hMem⟩
      · exact hOld scope (h.names _ hMem) (h.gone _ hMem)
  refine ⟨?_, fun next hNext => (hScopes next hNext).1,
    fun next hNext => (hScopes next hNext).2, ?_⟩
  · rcases exists_outer hFits.closes_lt with
      ⟨first, rest, hOuter⟩
    rcases line.opens_eq with hOpens | hOpens
    · simp [Scoping.after, hOuter, hOpens]
    · simp [Scoping.after, hOpens]
  · intro l hl
    rcases List.mem_append.mp hl with hOld | hTaken
    · exact h.taken l hOld
    · exact hNew l (List.mem_filter.mp hTaken).1

theorem Passes.onlyLoops
    {n : Nat}
    {state final : Scoping}
    {lines : List Line}
    (h : Passes state lines final)
    (hLoops : state.OnlyLoops n)
    (hSound : state.IsSound)
    (hDeclared : ∀ line ∈ lines, ∀ l,
      line.declared? = some l → l.IsOfLoop n) :
    final.OnlyLoops n := by
  induction h with
  | nil => exact hLoops
  | cons hFirst _ ih =>
      rw [List.forall_mem_cons] at hDeclared
      exact ih (hLoops.after hSound hFirst hDeclared.1)
        (hSound.after hFirst) hDeclared.2

/- Lines that free what the innermost scope holds, in order. -/
theorem Passes.frees
    {lines : List Line}
    (hLines : ∀ line ∈ lines, line.freed?.isSome = true)
    (hNodup : (lines.filterMap Line.freed?).Nodup)
    {state : Scoping}
    {scope : Scope}
    {outer : List Scope}
    (hScopes : state.scopes = scope :: outer)
    (hHeld : scope.held = lines.filterMap Line.freed?) :
    ∃ final later, Passes state lines final ∧
      final.scopes = later :: outer ∧ later.held = [] := by
  induction lines generalizing state scope with
  | nil => exact ⟨state, scope, .nil state, hScopes, hHeld⟩
  | cons line lines ih =>
      rw [List.forall_mem_cons] at hLines
      rcases Option.isSome_iff_exists.mp hLines.1 with
        ⟨place, hFreed⟩
      rw [List.filterMap_cons_some hFreed] at hNodup hHeld
      rw [List.nodup_cons] at hNodup
      rcases Line.opens_closes_of_freed? hFreed with
        ⟨hOpens, hCloses⟩
      have hFits : line.Fits state := by
        refine ⟨?_, ?_, ?_, ?_, ?_, ?_⟩
        · simp [hCloses, hScopes]
        · simp [hCloses]
        · simp [(Line.plain_of_freed? hFreed).1]
        · simp [hFreed]
        · simp [hFreed]
        · intro other hOther
          rw [hFreed, Option.some.injEq] at hOther
          refine ⟨scope, outer, hScopes, ?_⟩
          rw [hHeld, hOther]
          exact List.mem_cons_self
      have hTake := Scope.take_of_freed? hFreed hHeld hNodup.1
      have hAfter : (state.after line).scopes =
          scope.take line :: outer := by
        simp [after, hOpens, hCloses, hScopes]
      have hRest : (scope.take line).held =
          lines.filterMap Line.freed? := by
        rw [hTake]
      rcases ih hLines.2 hNodup.2 hAfter hRest with
        ⟨final, later, hPasses, hFinal, hEmpty⟩
      exact ⟨final, later, .cons hFits hPasses, hFinal, hEmpty⟩

end Scoping

------------------------------------------------------------
-- Events and Scopes
------------------------------------------------------------

namespace Event

/- The events take matching scopes to matching scopes. -/
def Carries
    (file : Text)
    (blocks : List Frame)
    (loops : Nat)
    (events : List Event) : Prop :=
  ∀ state, Scoping.Matches blocks loops state →
    ∃ final, state.Passes (writtenAll file events) final ∧
      final.Matches (stackAll blocks events)
        (loops + loopsAll events)

variable {file : Text}
variable {blocks : List Frame}
variable {loops : Nat}

theorem carries_nil : Carries file blocks loops [] :=
  fun state hState => ⟨state, .nil state, hState⟩

theorem Carries.append
    {a b : List Event}
    (ha : Carries file blocks loops a)
    (hb : Carries file (stackAll blocks a)
      (loops + loopsAll a) b) :
    Carries file blocks loops (a ++ b) := by
  intro state hState
  rcases ha state hState with ⟨between, hFirst, hBetween⟩
  rcases hb between hBetween with ⟨final, hRest, hFinal⟩
  rw [writtenAll_append, stackAll_append, loopsAll_append,
    ← Nat.add_assoc]
  exact ⟨final, hFirst.append hRest, hFinal⟩

/- The events leave scopes, blocks and loops as they are. -/
structure Stays
    (file : Text)
    (events : List Event) : Prop where
  keeps : Keeps file events
  stack : ∀ blocks, stackAll blocks events = blocks
  loops : loopsAll events = 0

theorem stays_nil : Stays file [] :=
  ⟨keeps_nil, fun _ => rfl, rfl⟩

theorem stays_fail
    (line : Nat)
    (fault : Fault) :
    Stays file [.fail line fault] :=
  ⟨keeps_fail line fault, fun _ => rfl, rfl⟩

theorem stays_warn
    (line : Nat)
    (message : Text) :
    Stays file [.warn line message] :=
  ⟨fun _ state _ => .nil state, fun _ => rfl, rfl⟩

theorem stays_of_steady
    {events : List Event}
    (hKeeps : Keeps file events)
    (hSteady : events.all isSteady = true) :
    Stays file events :=
  ⟨hKeeps, stackAll_of_steady hSteady,
    loopsAll_of_steady hSteady⟩

theorem stays_condition
    (line : Nat)
    (cond : Text) :
    Stays file (condition line cond) :=
  stays_of_steady (keeps_condition line cond)
    (all_isSteady_condition line cond)

theorem Stays.carries
    {events : List Event}
    (h : Stays file events) :
    Carries file blocks loops events := by
  intro state hState
  rw [h.stack, h.loops]
  exact ⟨state, h.keeps loops state hState.loops, hState⟩

theorem Stays.carries_append
    {a b : List Event}
    (ha : Stays file a)
    (hb : Carries file blocks loops b) :
    Carries file blocks loops (a ++ b) := by
  refine ha.carries.append ?_
  rw [ha.stack, ha.loops]
  exact hb

/-
  What is left to say of events that declare variables of
  loops only: which scopes they leave.
-/
theorem carries_of_awaits
    {events : List Event}
    (hDeclared : ∀ line ∈ writtenAll file events, ∀ l,
      line.declared? = some l →
        l.IsOfLoop (loops + loopsAll events))
    (hFrames : (∀ frame ∈ blocks, frame.OnlyFrees) →
      ∀ frame ∈ stackAll blocks events, frame.OnlyFrees)
    (hAwaits : ∀ state, Scoping.Matches blocks loops state →
      ∃ final, state.Passes (writtenAll file events) final ∧
        Scoping.Awaits [] (stackAll blocks events)
          final.scopes) :
    Carries file blocks loops events := by
  intro state hState
  rcases hAwaits state hState with ⟨final, hPasses, hFinal⟩
  refine ⟨final, hPasses, hPasses.isSound hState.sound, ?_,
    hFrames hState.frames, hFinal⟩
  exact hPasses.onlyLoops
    (hState.loops.mono (Nat.le_add_right _ _)) hState.sound
    hDeclared

------------------------------------------------------------
-- Opening Blocks
------------------------------------------------------------

/- A block with nothing to free at its end. -/
theorem carries_open
    {line : Line}
    (hInert : line.isInert = true)
    (hOpens : line.opens = 1)
    (hCloses : line.closes = 0)
    (hLocals : line.locals = [])
    {frame : Frame}
    (hFrame : frame.epilogue = []) :
    Carries file blocks loops [.write 0 line, .push frame] := by
  refine carries_of_awaits ?_ ?_ ?_
  · simp [written, (Line.eq_none_of_isInert hInert).1]
  · intro hBlocks
    exact List.forall_mem_cons.mpr
      ⟨Frame.onlyFrees_of_epilogue_eq_nil hFrame, hBlocks⟩
  · intro state hState
    refine ⟨state.enter {}, ?_, {}, state.scopes, rfl, rfl, ?_⟩
    · exact .opening hState.loops.nonempty hInert hOpens hCloses
        (by simp [hLocals])
    · have hPlaces : frame.places = [] := by
        rw [Frame.places, hFrame]
        rfl
      rw [hPlaces]
      exact hState.awaits

theorem carries_openBranch
    (line : Nat)
    (cond : Text)
    {frame : Frame}
    (hFrame : frame.epilogue = []) :
    Carries file blocks loops (openBranch line cond frame) := by
  refine (stays_condition line cond).carries_append ?_
  exact carries_open rfl rfl rfl rfl hFrame

/- The lines that leave a loop keep the scopes. -/
theorem stays_leaveLoop :
    Stays file [.write 0 .openOnFailure, .write 1 .leaveLoop,
      .write 0 .close] := by
  refine ⟨?_, fun _ => rfl, rfl⟩
  intro n state hLoops
  have hOpen : state.Passes [.openOnFailure]
      (state.enter {}) :=
    .opening hLoops.nonempty rfl rfl rfl (by simp [Line.locals])
  have hLeave : (state.enter {}).Passes [.leaveLoop]
      (state.enter {}) :=
    .bare (List.cons_ne_nil _ _) rfl rfl
  have hClose : (state.enter {}).Passes [.close] state :=
    .closing hLoops.nonempty rfl
  exact hOpen.append (hLeave.append hClose)

theorem carries_openWhile
    (line : Nat)
    (cond : Text) :
    Carries file blocks loops (openWhile line cond) := by
  have hOpen : Carries file blocks loops
      [.write 0 .openForever,
        .push ⟨.loop, "while", line, false, false, []⟩] :=
    carries_open rfl rfl rfl rfl rfl
  rw [openWhile, List.append_assoc]
  refine hOpen.append ?_
  exact (stays_condition line cond).carries_append
    stays_leaveLoop.carries

------------------------------------------------------------
-- Loops over Items
------------------------------------------------------------

theorem locals_buildItem
    (item : Template) :
    (buildItem item).locals = [] := by
  cases item with
  | literal text => rfl
  | format text args =>
      exact FormatCall.locals_ofTemplate text args

/- The line with the items declares them, and does nothing else. -/
theorem declareItems_facts
    (loop : Nat)
    (items : List Template) :
    (declareItems loop items).declared? =
        some (.items loop) ∧
      (declareItems loop items).locals = [.items loop] ∧
      (declareItems loop items).freed? = none ∧
      (declareItems loop items).opens = 0 ∧
      (declareItems loop items).closes = 0 := by
  unfold declareItems
  split
  · exact ⟨rfl, rfl, rfl, rfl, rfl⟩
  · refine ⟨rfl, ?_, rfl, rfl, rfl⟩
    simp [Line.locals, List.flatMap_map, locals_buildItem]

/- A loop frees the places that its items are stored in. -/
theorem places_forFrame
    (line loop : Nat)
    (items : List Template) :
    (forFrame line (freeItems loop items)).places =
      (declareItems loop items).stored := by
  simp only [Frame.places, forFrame, freeItems, declareItems]
  split
  · rfl
  · simp [List.filterMap_map, Line.stored, Function.comp_def,
      Line.freed?]

theorem onlyFrees_forFrame
    (line loop : Nat)
    (items : List Template) :
    (forFrame line (freeItems loop items)).OnlyFrees := by
  constructor
  · intro other hOther
    simp only [forFrame, freeItems] at hOther
    split at hOther
    · cases hOther
    · rcases List.mem_map.mp hOther with ⟨index, _, rfl⟩
      rfl
  · rw [places_forFrame, declareItems]
    split
    · exact List.nodup_nil
    · refine List.pairwise_map.mpr (List.nodup_range.imp ?_)
      intro a b hab
      simpa using hab

/-
  The lines that open a loop, where its variables are new.
  The scope around the loop holds the items, and the scope
  inside of it knows the index.
-/
theorem exists_passes_openForItems
    (var : Text)
    (items : List Template)
    {loop : Nat}
    {scope : Scope}
    {outer : List Scope}
    {taken : List Local}
    (hHeld : scope.held = [])
    (hItems : Scoping.Lacks ⟨scope :: outer, taken⟩
      (.items loop))
    (hIndex : Scoping.Lacks ⟨scope :: outer, taken⟩
      (.index loop)) :
    ∃ inner later taken',
      Scoping.Passes ⟨scope :: outer, taken⟩
        [declareItems loop items,
          .openItems loop items.length, .assignItem var loop]
        ⟨inner :: later :: outer, taken'⟩ ∧
      inner.held = [] ∧
      later.held = (declareItems loop items).stored := by
  rcases declareItems_facts loop items with
    ⟨hDeclared, hLocals, hFreed, hOpens, hCloses⟩
  let later : Scope := ⟨scope.names ++ [.items loop],
    (declareItems loop items).stored, scope.gone⟩
  let declared : Scoping :=
    ⟨later :: outer, taken ++ [.items loop]⟩
  let inner : Scope := { names := [.index loop] }
  let opened : Scoping := ⟨inner :: later :: outer,
    taken ++ [.items loop, .index loop]⟩
  have hDeclare : Scoping.Passes ⟨scope :: outer, taken⟩
      [declareItems loop items] declared := by
    have hAfter : Scoping.after ⟨scope :: outer, taken⟩
        (declareItems loop items) = declared := by
      simp [Scoping.after, hOpens, hCloses, hDeclared,
        Scope.take_of_freed?_eq_none hFreed, hHeld,
        Local.loop?, declared, later]
    rw [← hAfter]
    exact .single (hItems.fits (List.cons_ne_nil _ _)
      hDeclared (by simp [hLocals]) hCloses hFreed)
  have hOpen : declared.Passes
      [.openItems loop items.length] opened := by
    have hLine : (Line.openItems loop
        items.length).freed? = none := rfl
    have hAfter : declared.after
        (.openItems loop items.length) = opened := by
      simp [Scoping.after, Line.opens, Line.closes,
        Line.declared?, Line.stored,
        Scope.take_of_freed?_eq_none hLine, Local.loop?,
        declared, opened, inner]
    have hLacks : declared.Lacks (.index loop) :=
      ⟨by simpa [declared, later] using hIndex.names,
        by simpa [declared, later] using hIndex.gone,
        by simpa [declared] using hIndex.taken⟩
    rw [← hAfter]
    exact .single (hLacks.fits (List.cons_ne_nil _ _) rfl
      (by simp [Line.locals]) rfl rfl)
  have hAssign : opened.Passes [.assignItem var loop]
      opened := by
    have hGone {l : Local}
        (hl : Scoping.Lacks ⟨scope :: outer, taken⟩ l) :
        ∀ other ∈ opened.scopes, l ∉ other.gone := by
      simpa [opened, inner, later] using hl.gone
    have hOffers : opened.Offers (.items loop) ∧
        opened.Offers (.index loop) :=
      ⟨⟨⟨later, by simp [opened], by simp [later]⟩,
          hGone hItems⟩,
        ⟨⟨inner, by simp [opened], by simp [inner]⟩,
          hGone hIndex⟩⟩
    refine .use (List.cons_ne_nil _ _) rfl ?_
    simpa [Line.locals] using hOffers
  exact ⟨inner, later, _,
    hDeclare.append (hOpen.append hAssign), rfl, rfl⟩

/-
  A loop over items.  Its number is new, and so are its
  variables.
-/
theorem carries_openForItems
    (line : Nat)
    (var : Text)
    (items : List Template) :
    Carries file blocks loops
      (openForItems line (loops + 1) var items) := by
  refine carries_of_awaits ?_ ?_ ?_
  · intro other hOther l hl
    have hLines : other = declareItems (loops + 1) items ∨
        other = .openItems (loops + 1) items.length ∨
        other = .assignItem var (loops + 1) := by
      simpa [openForItems, written] using hOther
    have hBound : loops + 1 ≤ loops + loopsAll
        (openForItems line (loops + 1) var items) :=
      Nat.le_refl _
    rcases hLines with rfl | rfl | rfl
    · rw [(declareItems_facts (loops + 1) items).1,
        Option.some.injEq] at hl
      exact hl ▸ ⟨loops + 1, rfl, hBound⟩
    · cases hl
      exact ⟨loops + 1, rfl, hBound⟩
    · cases hl
  · intro hBlocks
    exact List.forall_mem_cons.mpr
      ⟨onlyFrees_forFrame line (loops + 1) items, hBlocks⟩
  · intro state hState
    have hItems : state.Lacks (.items (loops + 1)) :=
      hState.loops.lacks rfl (Nat.lt_succ_self loops)
    have hIndex : state.Lacks (.index (loops + 1)) :=
      hState.loops.lacks rfl (Nat.lt_succ_self loops)
    rcases state with ⟨scopes, taken⟩
    rcases hState.awaits.exists_scope with
      ⟨scope, outer, rfl, hHeld⟩
    rcases exists_passes_openForItems var items hHeld hItems
      hIndex with ⟨inner, later, _, hPasses, hInner, hLater⟩
    refine ⟨_, hPasses, inner, later :: outer, rfl, hInner, ?_⟩
    rw [places_forFrame, ← hLater]
    exact hState.awaits.replace later

theorem carries_openFor
    (line : Nat)
    (var : Text)
    (items : Option Text) :
    Carries file blocks loops
      (openFor line loops var items) := by
  unfold openFor
  split
  · exact carries_open rfl rfl rfl rfl rfl
  · exact carries_openForItems line var _

------------------------------------------------------------
-- Going Over to Another Branch
------------------------------------------------------------

/- The other branch of a block has a scope of its own. -/
theorem carries_continueElse
    (line : Nat)
    (keyword : Text)
    {next : List Event}
    (hNext : ∀ blocks, Carries file blocks loops next) :
    Carries file blocks loops
      (continueElse line keyword blocks next) := by
  unfold continueElse
  split
  · exact (stays_fail line _).carries
  · rename_i frame rest
    split
    · have hElse : Carries file (frame :: rest) loops
          [.pop, .write 0 .openElse,
            .push { frame with inElse := true }] := by
        refine carries_of_awaits ?_ ?_ ?_
        · simp [written, Line.declared?]
        · intro hBlocks
          rw [List.forall_mem_cons] at hBlocks
          exact List.forall_mem_cons.mpr
            ⟨⟨hBlocks.1.frees, hBlocks.1.nodup⟩, hBlocks.2⟩
        · intro state hState
          rcases state with ⟨scopes, taken⟩
          rcases hState.awaits with
            ⟨scope, outer, rfl, hHeld, hOuter⟩
          rcases hOuter.exists_scope with
            ⟨_, _, hScopes, _⟩
          have hNonempty : outer ≠ [] := by
            rw [hScopes]
            exact List.cons_ne_nil _ _
          let base : Scoping := ⟨outer, taken⟩
          have hBase : base.scopes ≠ [] := hNonempty
          exact ⟨base.enter {}, .reopening hBase hHeld,
            {}, outer, rfl, rfl, hOuter⟩
      exact hElse.append (hNext _)
    · intro state hState
      exact (stays_fail line _).carries state hState

------------------------------------------------------------
-- Closing Blocks
------------------------------------------------------------

theorem Stays.stack_close
    {before : List Event}
    (h : Stays file before)
    (frame : Frame)
    (blocks : List Frame) :
    stackAll (frame :: blocks)
        (.pop :: before ++ closeFrame frame) = blocks ∧
      loopsAll (.pop :: before ++ closeFrame frame) = 0 := by
  have hSteady := all_isSteady_closeFrame frame
  constructor
  · rw [stackAll_append]
    change stackAll (stackAll blocks before) _ = blocks
    rw [h.stack, stackAll_of_steady hSteady]
  · rw [loopsAll_append, loopsAll, h.loops,
      loopsAll_of_steady hSteady]
    rfl

/-
  A block is closed, and the scope around it frees what it
  holds for the block.  A marker may stand before the end.
-/
theorem carries_close
    {before : List Event}
    (hBefore : Stays file before)
    (frame : Frame) :
    Carries file (frame :: blocks) loops
      (.pop :: before ++ closeFrame frame) := by
  intro state hState
  have hMarked := hBefore.keeps loops state hState.loops
  rcases state with ⟨scopes, taken⟩
  rcases hState.awaits with ⟨scope, outer, rfl, hHeld, hOuter⟩
  rcases hOuter.exists_scope with ⟨around, rest, rfl, hAround⟩
  let base : Scoping := ⟨around :: rest, taken⟩
  have hBase : base.scopes ≠ [] := List.cons_ne_nil _ _
  have hFrame := hState.frames frame List.mem_cons_self
  have hClose : Scoping.Passes (base.enter scope) [.close]
      base :=
    .closing hBase hHeld
  have hFrees : ∃ final later,
      base.Passes frame.epilogue final ∧
        final.scopes = later :: rest ∧ later.held = [] :=
    Scoping.Passes.frees hFrame.frees hFrame.nodup rfl hAround
  rcases hFrees with ⟨final, later, hFrees, hFinal, hEmpty⟩
  have hEnd := hClose.append hFrees
  rcases hBefore.stack_close frame blocks with ⟨hStack, hLoops⟩
  rw [hStack, hLoops]
  refine ⟨final, ?_, hEnd.isSound hState.sound, ?_, ?_, ?_⟩
  · have hWritten : writtenAll file
        (.pop :: before ++ closeFrame frame) =
          writtenAll file before ++
            ([.close] ++ frame.epilogue) := by
      simp [closeFrame, written]
    rw [hWritten]
    exact hMarked.append hEnd
  · refine hEnd.onlyLoops hState.loops hState.sound ?_
    intro line hLine l hl
    rcases List.mem_append.mp hLine with hLine | hLine
    · cases List.mem_singleton.mp hLine
      cases hl
    · rcases Option.isSome_iff_exists.mp
          (hFrame.frees line hLine) with ⟨place, hFreed⟩
      rw [(Line.plain_of_freed? hFreed).1] at hl
      cases hl
  · exact fun other hOther =>
      hState.frames other (List.mem_cons_of_mem _ hOther)
  · have hReplaced := hOuter.replace later
    rwa [hEmpty, ← hFinal] at hReplaced

theorem carries_closeAs
    (line : Nat)
    (keyword : Text)
    (expected : BlockKind)
    (frame : Frame) :
    Carries file (frame :: blocks) loops
      (closeAs line keyword expected frame) := by
  unfold closeAs
  split
  · exact carries_close stays_nil frame
  · exact carries_close (stays_warn line _) frame

/- Further blocks may be closed behind the first. -/
theorem Carries.behind_close
    {before events : List Event}
    (hBefore : Stays file before)
    (h : Carries file blocks loops events)
    (frame : Frame) :
    Carries file (frame :: blocks) loops
      (.pop :: before ++ closeFrame frame ++ events) := by
  rcases hBefore.stack_close frame blocks with ⟨hStack, hLoops⟩
  refine (carries_close hBefore frame).append ?_
  rw [hStack, hLoops]
  exact h

theorem carries_closeChain
    (blocks : List Frame) :
    Carries file blocks loops (closeChain blocks) := by
  induction blocks with
  | nil => exact carries_nil
  | cons frame rest ih =>
      refine Carries.behind_close stays_nil ?_ frame
      split
      · exact ih
      · exact carries_nil

theorem carries_closeIf
    (line : Nat)
    (blocks : List Frame) :
    Carries file blocks loops (closeIf line blocks) := by
  cases blocks with
  | nil => exact (stays_fail line _).carries
  | cons frame rest =>
      have hChain : Carries file rest loops
          (if frame.chained then closeChain rest else []) := by
        split
        · exact carries_closeChain rest
        · exact carries_nil
      rw [closeIf, closeAs]
      split
      · exact hChain.behind_close stays_nil frame
      · exact hChain.behind_close (stays_warn line _) frame

theorem carries_closeLoop
    (line : Nat)
    (blocks : List Frame) :
    Carries file blocks loops (closeLoop line blocks) := by
  cases blocks with
  | nil => exact (stays_fail line _).carries
  | cons frame rest =>
      exact carries_closeAs line "done" .loop frame

/- At the end of the script, every block is closed. -/
theorem carries_closeAll
    (file : Text)
    (loops : Nat)
    (blocks : List Frame) :
    Carries file blocks loops (closeAll blocks) ∧
      stackAll blocks (closeAll blocks) = [] := by
  induction blocks with
  | nil => exact ⟨carries_nil, rfl⟩
  | cons frame rest ih =>
      have hMark : Stays file (if frame.chained then []
          else [.fail frame.line (.unclosed frame.opener)]) := by
        split
        · exact stays_nil
        · exact stays_fail _ _
      rw [closeAll, List.flatMap_cons, ← closeAll]
      refine ⟨ih.1.behind_close hMark frame, ?_⟩
      rw [stackAll_append, (hMark.stack_close frame rest).1]
      exact ih.2

end Event

------------------------------------------------------------
-- Scripts
------------------------------------------------------------

namespace Command

/- Every statement takes matching scopes to matching scopes. -/
theorem carries_events
    (command : Command)
    (file : Text)
    (blocks : List Frame)
    (loops line : Nat) :
    Event.Carries file blocks loops
      (command.events blocks loops line) := by
  by_cases hPlain : command.form.blockRole = .plain
  · have hSteady := Event.all_isSteady_of_all_isPlain
      (all_isPlain_events hPlain blocks loops line)
    exact (Event.stays_of_steady
      (keeps_events hPlain file blocks loops line)
      hSteady).carries
  · rcases command with ⟨text, form⟩
    cases form with
    | ifOpen cond => exact Event.carries_openBranch line cond rfl
    | elifBranch cond =>
        exact Event.carries_continueElse line "elif" fun _ =>
          Event.carries_openBranch line cond rfl
    | elseBranch =>
        exact Event.carries_continueElse line "else" fun _ =>
          Event.carries_nil
    | ifClose => exact Event.carries_closeIf line blocks
    | whileOpen cond => exact Event.carries_openWhile line cond
    | forOpen var items =>
        exact Event.carries_openFor line var items
    | loopClose => exact Event.carries_closeLoop line blocks
    | _ => exact absurd rfl hPlain

theorem carries_eventsAll
    (file : Text)
    (blocks : List Frame)
    (loops : Nat)
    (commands : List (Nat × Command)) :
    Event.Carries file blocks loops
      (eventsAll blocks loops commands) := by
  induction commands generalizing blocks loops with
  | nil => exact Event.carries_nil
  | cons command commands ih =>
      exact (carries_events command.2 file blocks loops
        command.1).append (ih _ _)

end Command

/-
  The lines of every script pass from the first to the last,
  and nothing is held in the end.
-/
theorem Draft.exists_passes_ofScript
    (file unit script : Text) :
    ∃ final, Scoping.start.Passes
        ((ofScript file unit script).rows.toList.map Row.line)
        final ∧
      ∀ scope ∈ final.scopes, scope.held = [] := by
  have hEvents : Event.Carries file [] 0
      (Command.eventsToEnd [] 0 (Command.ofScript script)) :=
    (Command.carries_eventsAll file [] 0 _).append
      (Event.carries_closeAll file _ _).1
  have hStack : Event.stackAll []
      (Command.eventsToEnd [] 0 (Command.ofScript script)) =
        [] := by
    rw [Command.eventsToEnd, Event.stackAll_append]
    exact (Event.carries_closeAll file 0 _).2
  rcases hEvents Scoping.start Scoping.matches_start with
    ⟨final, hPasses, hFinal⟩
  refine ⟨final, ?_, ?_⟩
  · rcases ofScript_eq file unit script with ⟨log, hDraft⟩
    have hRows : (ofScript file unit script).rows.toList =
        Event.rowsAll file [] (Command.eventsToEnd [] 0
          (Command.ofScript script)) := by
      rw [hDraft, finish_addCommands_eq_extend,
        toList_rows_extend]
      rfl
    rw [hRows, Event.map_line_rowsAll]
    exact hPasses
  · have hAwaits := hFinal.awaits
    rw [hStack] at hAwaits
    rcases hAwaits with ⟨scope, hScopes, hHeld⟩
    rw [hScopes]
    simpa using hHeld

end ShellToC
