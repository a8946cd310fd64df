import RedisVfs.Refinement.Placing

set_option autoImplicit false

namespace RedisVfs

open CString

theorem History.place_cases {history : History} {location : Location} {place : Nat × Text}
    (placed : history.place location = some place) :
    location.last = [] ∧ place = (nowhere, ['/']) ∨ location.last ≠ [] ∧ history.Linked place.1 ∧
      place.2 = location.last ++ trail location.slash := by
  unfold History.place at placed
  cases walk : history.walk 0 location.folders with
  | none => simp [walk] at placed
  | some d =>
    have linked : history.Linked d := History.Linked.walk .root walk
    simp only [walk] at placed
    by_cases unnamed : location.last = []
    · rw [if_pos unnamed] at placed
      exact .inl ⟨unnamed, (Option.some.inj placed).symm⟩
    · rw [if_neg unnamed] at placed
      refine .inr ⟨unnamed, ?_⟩
      split at placed
      next look =>
        cases placed
        exact ⟨(linked.lookup look).parent, rfl⟩
      next =>
        cases placed
        exact ⟨linked, rfl⟩

theorem History.placeOfPath_cases {history : History} {body : Text} {place : Nat × Text}
    (placed : history.placeOfPath body = some place) :
    place = (nowhere, ['/']) ∨ history.Linked place.1 ∧ Shaped place.2 := by
  unfold History.placeOfPath at placed
  split at placed
  · exact .inl (Option.some.inj placed).symm
  next location _ =>
    refine (History.place_cases placed).imp And.right fun ⟨named, linked, shape⟩ => ⟨linked, ?_⟩
    exact ⟨location.last, location.slash, named, location.lastFree, shape⟩

theorem History.placeOfPath_takes {history : History} {body : Text} {place : Nat × Text}
    (placed : history.placeOfPath body = some place) : history.Takes place.1 place.2 := by
  rcases History.placeOfPath_cases placed with rfl | ⟨linked, shaped⟩
  · exact history.takes_nowhere
  · exact linked.takes shaped

namespace Tree

def created (tree : Tree) (kind : Kind) (place : Nat × Text) : History :=
  ⟨kind, place.1, place.2⟩ :: tree.history

theorem inserter_run (tree : Tree) (accepts : tree.store.Accepts) (kind : Kind) (parentId : Int) (name : Text) :
    (inserter kind parentId name).run execute tree.store =
      (.ok ((tree.history.length + 1 : Nat) : Int),
        (tree.created kind (unsigned parentId, name)).store) := by
  cases kind with
  | folder => exact tree.vfsMkdir_run accepts parentId name
  | file => exact tree.vfsCreateFile_run accepts parentId name

theorem above_held (tree : Tree) {number : Nat} {value : Text}
    (held : (tree.store.hashes (.folderInfo number)).lookup .parent = some value) :
    value = decimal (tree.history.parent number) ∧
      (number = 0 ∨ ∃ entry, Journal.entryAt tree.history number = some entry) := by
  by_cases folder : number = 0 ∨
      ∃ entry, Journal.entryAt tree.history number = some entry ∧ entry.kind = .folder
  · rw [tree.folder_held folder, folderHash_parent] at held
    exact ⟨(Option.some.inj held).symm, folder.imp_right fun ⟨entry, found, _⟩ => ⟨entry, found⟩⟩
  · obtain ⟨nonroot, other⟩ := not_or.mp folder
    have absent : tree.store.hashes (.folderInfo number) = [] :=
      @History.store_info_none tree.history number .folder nonroot
        fun entry found kind => other ⟨entry, found, kind⟩
    rw [absent] at held
    simp at held

theorem numbered (tree : Tree) : tree.store.Numbered tree.history.length where
  listed d element member := by
    obtain ⟨kind, m, _, id, child, rfl⟩ := History.store_listed member
    have bounds := Journal.children_le child
    rw [tree.strtol_number bounds.2]
    omega
  above d value held := by
    have bounded := tree.bounded
    obtain ⟨rfl, root | ⟨entry, found⟩⟩ := tree.above_held held
    · rw [root, strtol_decimal]
      simp [History.parent, Journal.parent, Journal.entryAt_zero, clampLong, LONG_MIN, LONG_MAX]
    · have bound := (Journal.entryAt_le found).2
      rw [strtol_decimal, History.parent, Journal.parent_of_entry found]
      rcases tree.grown.entry found with lost | placed
      · rw [lost.1]
        unfold nowhere clampLong LONG_MIN LONG_MAX
        omega
      · unfold clampLong LONG_MIN LONG_MAX at *
        omega

theorem parsed_takes {tree : Tree} {d : Int} {body : Text} {result : Int} {parserState : VfsPathParserState}
    (parse : tree.store.parsed d ('/' :: body) = .ok (result, parserState)) (found : result ≠ -1) :
    tree.history.Takes (unsigned parserState.parentId) (('/' :: body).drop parserState.nameOffset) := by
  by_cases small : tree.Small
  · rw [tree.parsed_linked d (small.parsesWithin .root _)] at parse
    have same := Except.ok.inj parse
    have place := (tree.parse_place body).resolve_left (by rw [same]; exact fun lost => found lost.1)
    rw [same] at place
    exact History.placeOfPath_takes place.2
  · rcases tree.numbered.parsed parse found with ⟨parent, name⟩ | ⟨ranged, shaped⟩
    · rw [parent, name]
      exact tree.history.takes_nowhere
    · exact .inr ⟨shaped, ranged.unsigned tree.bounded, fun few => absurd few small⟩

def extend (tree : Tree) (kind : Kind) (place : Nat × Text)
    (takes : tree.history.Takes place.1 place.2) (accepts : tree.store.Accepts) : Tree where
  history := tree.created kind place
  grown := .created kind tree.grown takes
  bounded := by
    have room := tree.accepts_iff.mp accepts
    simpa [created] using room

@[simp] theorem extend_history (tree : Tree) (kind : Kind) (place : Nat × Text)
    (takes : tree.history.Takes place.1 place.2) (accepts : tree.store.Accepts) :
    (tree.extend kind place takes accepts).history = ⟨kind, place.1, place.2⟩ :: tree.history := rfl

end Tree

-- A state that holds a tree and a working directory, given behind its first '/'.
structure Represents (state : State) (tree : Tree) (cwd : Text) : Prop where
  store : state.store = tree.store
  context : state.context = { cwd := '/' :: cwd }

theorem Represents.state_eq {state : State} {tree : Tree} {cwd : Text}
    (holds : Represents state tree cwd) : state = ⟨tree.store, { cwd := '/' :: cwd }⟩ := by
  obtain ⟨store, context⟩ := state
  obtain ⟨rfl, rfl⟩ := holds
  rfl

theorem Represents.parses_uncut_iff {state : State} {tree : Tree} {cwd path formattedPath : Text}
    {parserState : VfsPathParserState} (holds : Represents state tree cwd) (uncut : tree.Uncut cwd path) :
    state.Parses path formattedPath parserState ↔ ∃ fuel body, formattedPath = '/' :: body ∧
      tree.history.format fuel cwd path = .ok ('/' :: body) ∧
        tree.history.parse 0 ('/' :: body) = (0, parserState) := by
  obtain rfl := holds.state_eq
  rw [State.parses_iff]
  simp only [tree.format_linked _ uncut.start, tree.cwdId_linked uncut.start]
  constructor
  · rintro ⟨fuel, cwdId, format, -, parse⟩
    obtain ⟨body, rfl⟩ := Store.format_absolute ((tree.format_linked fuel uncut.start path).trans format)
    rw [tree.parsed_linked _ (uncut.formatted fuel _ format)] at parse
    exact ⟨fuel, body, rfl, format, Except.ok.inj parse⟩
  · rintro ⟨fuel, body, rfl, format, parse⟩
    refine ⟨fuel, _, format, rfl, ?_⟩
    rw [tree.parsed_linked _ (uncut.formatted fuel _ format), parse]

theorem Represents.parses_small {state : State} {tree : Tree} {cwd path body : Text}
    {parserState : VfsPathParserState} (holds : Represents state tree cwd) (small : tree.Small)
    (fuel : Nat) (format : tree.history.format fuel cwd path = .ok ('/' :: body))
    (parse : tree.history.parse 0 ('/' :: body) = (0, parserState)) :
    state.Parses path ('/' :: body) parserState :=
  (holds.parses_uncut_iff (small.uncut cwd path)).mpr ⟨fuel, body, rfl, format, parse⟩

theorem Represents.takes {state : State} {tree : Tree} {cwd path formattedPath : Text}
    {parserState : VfsPathParserState} (holds : Represents state tree cwd)
    (parses : state.Parses path formattedPath parserState) :
    tree.history.Takes (unsigned parserState.parentId) (formattedPath.drop parserState.nameOffset) := by
  obtain rfl := holds.state_eq
  obtain ⟨_, _, format, _, parse⟩ := State.parses_iff.mp parses
  obtain ⟨body, rfl⟩ := Store.format_absolute format
  exact Tree.parsed_takes parse (by decide)

theorem Represents.ranged {state : State} {tree : Tree} {cwd path formattedPath : Text}
    {parserState : VfsPathParserState} (holds : Represents state tree cwd)
    (parses : state.Parses path formattedPath parserState) :
    Ranged tree.history.length parserState.parentId := by
  obtain rfl := holds.state_eq
  obtain ⟨_, _, format, _, parse⟩ := State.parses_iff.mp parses
  obtain ⟨body, rfl⟩ := Store.format_absolute format
  rcases tree.numbered.parsed parse (by decide) with ⟨lost, _⟩ | ⟨ranged, _⟩
  · rw [lost]
    exact ⟨by omega, by omega⟩
  · exact ranged

structure Creates (tree : Tree) (cwd : Text) (call : Call) (tree' : Tree) : Prop where
  creation : ∃ kind path formattedPath parserState takes accepts, call = Kind.call kind path ∧
    State.Parses ⟨tree.store, { cwd := '/' :: cwd }⟩ path formattedPath parserState ∧
      tree' = tree.extend kind
        (unsigned parserState.parentId, formattedPath.drop parserState.nameOffset) takes accepts

structure Enters (tree : Tree) (cwd : Text) (call : Call) (cwd' : Text) : Prop where
  change : ∃ path fuel, call = .cd path ∧
    tree.store.changing fuel { cwd := '/' :: cwd } path = .ok (some ('/' :: cwd'))

theorem Tree.call_run (tree : Tree) (accepts : tree.store.Accepts) (kind : Kind) (fuel : Nat)
    (context : FsContext) (path : Text) :
    ((kind.call path).program fuel context).run execute tree.store =
      match tree.store.placing fuel context path with
      | .error fault => (.error fault, tree.store)
      | .ok none => (.ok (false, context), tree.store)
      | .ok (some (parentId, name)) =>
          (.ok (true, context), (tree.created kind (unsigned parentId, name)).store) := by
  rw [creator_program, Program.run_bind, tree.store.create_run]
  cases tree.store.placing fuel context path with
  | error fault => rfl
  | ok place =>
    cases place with
    | none => rfl
    | some place =>
      have made := Program.run_bind_ok execute (tree.inserter_run accepts kind place.1 place.2)
        fun _ => (pure true : Prog Bool)
      simp only [made]
      rfl

theorem Tree.creation_true_iff (tree : Tree) (accepts : tree.store.Accepts) (kind : Kind) {fuel : Nat}
    {context context' : FsContext} {path : Text} {store : Store} :
    ((kind.call path).program fuel context).run execute tree.store = (.ok (true, context'), store) ↔
      context' = context ∧ ∃ parentId name,
        tree.store.placing fuel context path = .ok (some (parentId, name)) ∧
          store = (tree.created kind (unsigned parentId, name)).store := by
  rw [tree.call_run accepts kind fuel context path]
  constructor
  · intro ran
    split at ran
    · simp at ran
    · simp at ran
    next parentId name placed =>
      obtain ⟨rfl, rfl⟩ := by simpa using ran
      exact ⟨rfl, parentId, name, placed, rfl⟩
  · rintro ⟨rfl, parentId, name, placed, rfl⟩
    rw [placed]

theorem Store.cd_true_iff {store after : Store} {fuel : Nat} {context context' : FsContext} {path : Text} :
    (cd fuel context path).run execute store = (.ok (true, context'), after) ↔
      after = store ∧ store.changing fuel context path = .ok (some context'.cwd) := by
  rw [store.cd_run fuel context path]
  constructor
  · intro ran
    split at ran
    · simp at ran
    · simp at ran
    next text changed =>
      obtain ⟨rfl, rfl⟩ : ({ cwd := text } : FsContext) = context' ∧ store = after := by
        simpa using ran
      exact ⟨rfl, changed⟩
  · rintro ⟨rfl, changed⟩
    rw [changed]

theorem Tree.created_store_ne (tree : Tree) (kind : Kind) (place : Nat × Text) :
    (tree.created kind place).store ≠ tree.store := by
  intro same
  have count := congrArg (fun store : Store => store.strings .currentIdCount) same
  simp only [Tree.created, History.store_count, Option.some.injEq] at count
  have next := decimal_injective count
  simp at next

theorem Represents.creation {state : State} {tree : Tree} {cwd path formattedPath : Text}
    {parserState : VfsPathParserState} (holds : Represents state tree cwd)
    (accepts : state.store.Accepts) (kind : Kind)
    (parses : state.Parses path formattedPath parserState) (fuel : Nat) :
    ((kind.call path).program fuel state.context).run execute state.store =
      match state.store.format fuel state.context path with
      | .error fault => (.error fault, tree.store)
      | .ok _ =>
          (.ok (true, state.context), (tree.created kind
            (unsigned parserState.parentId, formattedPath.drop parserState.nameOffset)).store) := by
  have placed := parses.placing fuel
  obtain rfl := holds.state_eq
  rw [tree.call_run accepts kind fuel, placed]
  cases tree.store.format fuel { cwd := '/' :: cwd } path <;> rfl

theorem Tree.call_run_cases (tree : Tree) (accepts : tree.store.Accepts) (kind : Kind) (fuel : Nat)
    (cwd path : Text) :
    (∃ fault, ((kind.call path).program fuel { cwd := '/' :: cwd }).run execute tree.store =
        (.error fault, tree.store)) ∨
      ((kind.call path).program fuel { cwd := '/' :: cwd }).run execute tree.store =
        (.ok (false, { cwd := '/' :: cwd }), tree.store) ∨
      ∃ tree', Creates tree cwd (kind.call path) tree' ∧
        ((kind.call path).program fuel { cwd := '/' :: cwd }).run execute tree.store =
          (.ok (true, { cwd := '/' :: cwd }), tree'.store) := by
  have run := tree.call_run accepts kind fuel { cwd := '/' :: cwd } path
  cases placed : tree.store.placing fuel { cwd := '/' :: cwd } path with
  | error fault =>
    rw [placed] at run
    exact .inl ⟨fault, run⟩
  | ok place =>
    rw [placed] at run
    cases place with
    | none => exact .inr (.inl run)
    | some place =>
      have holds : Represents ⟨tree.store, { cwd := '/' :: cwd }⟩ tree cwd := ⟨rfl, rfl⟩
      obtain ⟨formattedPath, parserState, parses, parent, rest⟩ :=
        (@State.placing_iff ⟨tree.store, { cwd := '/' :: cwd }⟩ _ _ _).mp ⟨fuel, placed⟩
      have takes := holds.takes parses
      refine .inr (.inr ⟨tree.extend kind _ takes accepts,
        ⟨kind, path, formattedPath, parserState, takes, accepts, rfl, parses, rfl⟩, ?_⟩)
      obtain ⟨parentId, name⟩ := place
      obtain rfl : parserState.parentId = parentId := parent
      obtain rfl : formattedPath.drop parserState.nameOffset = name := rest
      exact run

theorem Tree.cd_run_cases (tree : Tree) (fuel : Nat) (cwd path : Text) :
    (∃ fault, (cd fuel { cwd := '/' :: cwd } path).run execute tree.store =
        (.error fault, tree.store)) ∨
      (cd fuel { cwd := '/' :: cwd } path).run execute tree.store =
        (.ok (false, { cwd := '/' :: cwd }), tree.store) ∨
      ∃ cwd', Enters tree cwd (.cd path) cwd' ∧
        (cd fuel { cwd := '/' :: cwd } path).run execute tree.store =
          (.ok (true, { cwd := '/' :: cwd' }), tree.store) := by
  have run := tree.store.cd_run fuel { cwd := '/' :: cwd } path
  cases changed : tree.store.changing fuel { cwd := '/' :: cwd } path with
  | error fault =>
    rw [changed] at run
    exact .inl ⟨fault, run⟩
  | ok text =>
    rw [changed] at run
    cases text with
    | none => exact .inr (.inl run)
    | some text =>
      obtain ⟨cwd', rfl⟩ := Store.changing_absolute changed
      exact .inr (.inr ⟨cwd', ⟨path, fuel, rfl, changed⟩, run⟩)

theorem program_cases {state : State} {tree : Tree} {cwd : Text} (holds : Represents state tree cwd)
    (accepts : state.store.Accepts) (call : Call) (fuel : Nat) :
    (∃ fault, (call.program fuel state.context).run execute state.store = (.error fault, tree.store)) ∨
      (call.program fuel state.context).run execute state.store =
        (.ok (false, { cwd := '/' :: cwd }), tree.store) ∨
      (∃ tree', Creates tree cwd call tree' ∧
        (call.program fuel state.context).run execute state.store =
          (.ok (true, { cwd := '/' :: cwd }), tree'.store)) ∨
      ∃ cwd', Enters tree cwd call cwd' ∧
        (call.program fuel state.context).run execute state.store =
          (.ok (true, { cwd := '/' :: cwd' }), tree.store) := by
  obtain rfl := holds.state_eq
  rcases call_cases call with ⟨kind, path, rfl⟩ | ⟨path, rfl⟩
  · rcases tree.call_run_cases accepts kind fuel cwd path with thrown | refused | made
    · exact .inl thrown
    · exact .inr (.inl refused)
    · exact .inr (.inr (.inl made))
  · rcases tree.cd_run_cases fuel cwd path with thrown | refused | entered
    · exact .inl thrown
    · exact .inr (.inl refused)
    · exact .inr (.inr (.inr entered))

theorem Step.cases {state state' : State} {call : Call} {tree : Tree} {cwd : Text}
    (step : Step state call state') (holds : Represents state tree cwd) :
    Represents state' tree cwd ∨ (∃ tree', Creates tree cwd call tree' ∧ Represents state' tree' cwd) ∨
      ∃ cwd', Enters tree cwd call cwd' ∧ Represents state' tree cwd' := by
  cases step with
  | @returned fuel result context store accepts ran =>
    rcases program_cases holds accepts call fuel with
      ⟨fault, run⟩ | run | ⟨tree', creates, run⟩ | ⟨cwd', enters, run⟩
    · rw [ran] at run; simp at run
    · rw [ran] at run
      obtain ⟨⟨-, rfl⟩, rfl⟩ := by simpa using run
      exact .inl ⟨rfl, rfl⟩
    · rw [ran] at run
      obtain ⟨⟨-, rfl⟩, rfl⟩ := by simpa using run
      exact .inr (.inl ⟨tree', creates, rfl, rfl⟩)
    · rw [ran] at run
      obtain ⟨⟨-, rfl⟩, rfl⟩ := by simpa using run
      exact .inr (.inr ⟨cwd', enters, rfl, rfl⟩)
  | @threw fuel message store accepts ran =>
    rcases program_cases holds accepts call fuel with
      ⟨fault, run⟩ | run | ⟨tree', creates, run⟩ | ⟨cwd', enters, run⟩
    · rw [ran] at run
      obtain ⟨-, rfl⟩ := by simpa using run
      exact .inl ⟨rfl, holds.context⟩
    all_goals rw [ran] at run; simp at run

theorem Represents.creation_returned {state : State} {tree : Tree} {cwd path : Text} {kind : Kind}
    {fuel : Nat} {result : Bool} {context : FsContext} {store : Store}
    (holds : Represents state tree cwd) (accepts : state.store.Accepts)
    (ran : ((kind.call path).program fuel state.context).run execute state.store =
      (.ok (result, context), store)) :
    (result = false ∧ store = tree.store ∧
        ∀ formattedPath parserState, ¬ state.Parses path formattedPath parserState) ∨
      result = true ∧ ∃ formattedPath parserState, ∃ tree' : Tree,
        state.Parses path formattedPath parserState ∧
          tree'.history = ⟨kind, unsigned parserState.parentId,
            formattedPath.drop parserState.nameOffset⟩ :: tree.history ∧ store = tree'.store := by
  by_cases parses : ∃ formattedPath parserState, state.Parses path formattedPath parserState
  · obtain ⟨formattedPath, parserState, parses⟩ := parses
    rw [holds.creation accepts kind parses] at ran
    split at ran
    · simp at ran
    next =>
      obtain ⟨⟨rfl, _⟩, rfl⟩ := by simpa using ran
      exact .inr ⟨rfl, _, parserState, tree.extend kind _ (holds.takes parses) (holds.store ▸ accepts),
        parses, rfl, rfl⟩
  · have none (formattedPath : Text) (parserState : VfsPathParserState) :
        ¬ state.Parses path formattedPath parserState := fun found => parses ⟨_, _, found⟩
    rcases program_cases holds accepts (kind.call path) fuel with
      ⟨fault, run⟩ | run | ⟨tree', creates, run⟩ | ⟨cwd', enters, run⟩
    · rw [ran] at run; simp at run
    · rw [ran] at run
      obtain ⟨⟨rfl, _⟩, rfl⟩ := by simpa using run
      exact .inl ⟨rfl, rfl, none⟩
    · obtain ⟨kind', path', formattedPath, parserState, _, _, same, found, _⟩ := creates
      have path_ : path = path' := by simpa using congrArg Call.path same
      subst path_
      exact absurd (holds.state_eq ▸ found) (none _ _)
    · obtain ⟨path', _, same, _⟩ := enters
      cases kind <;> simp [Kind.call] at same

theorem Step.creation {state state' : State} {kind : Kind} {path : Text} {tree : Tree} {cwd : Text}
    (step : Step state (kind.call path) state') (holds : Represents state tree cwd) :
    (state'.store = tree.store ∧
        ∀ formattedPath parserState, ¬ state.Parses path formattedPath parserState) ∨
      ∃ formattedPath parserState, ∃ tree' : Tree, state.Parses path formattedPath parserState ∧
        tree'.history = ⟨kind, unsigned parserState.parentId,
          formattedPath.drop parserState.nameOffset⟩ :: tree.history ∧ state'.store = tree'.store := by
  cases step with
  | returned accepts ran => exact (holds.creation_returned accepts ran).imp And.right And.right
  | @threw fuel message store accepts ran =>
    have untouched : store = tree.store := by
      rcases program_cases holds accepts (kind.call path) fuel with
        ⟨fault, run⟩ | run | ⟨tree', _, run⟩ | ⟨cwd', _, run⟩
      · rw [ran] at run
        exact congrArg Prod.snd run
      all_goals rw [ran] at run; simp at run
    refine .inl ⟨untouched, fun formattedPath parserState parses => ?_⟩
    obtain ⟨fuel', _, format, _⟩ := State.parses_iff.mp parses
    rw [holds.creation accepts kind parses] at ran
    split at ran
    next fault format' =>
      obtain ⟨rfl, _⟩ := by simpa using ran
      exact absurd format (Store.format_thrown format')
    next => simp at ran

theorem ReachedBy.mono {condition weaker : State → Call → Prop} {state : State}
    (reached : ReachedBy condition state)
    (implies : ∀ state call, condition state call → weaker state call) : ReachedBy weaker state := by
  induction reached with
  | built before => exact .built before
  | step earlier allowed step ih => exact .step ih (implies _ _ allowed) step

-- A property of trees that creations keep holds of every state a run reaches.
theorem ReachedBy.tree {condition : State → Call → Prop} {state : State} {P : Tree → Prop}
    (reached : ReachedBy condition state) (fresh : P Tree.fresh)
    (create : ∀ before tree cwd call tree', ReachedBy condition before → Represents before tree cwd →
      condition before call → Creates tree cwd call tree' → P tree → P tree') :
    ∃ tree cwd, Represents state tree cwd ∧ P tree := by
  induction reached with
  | built before => exact ⟨Tree.fresh, [], ⟨congrArg Prod.snd (build_run before), rfl⟩, fresh⟩
  | @step state state' call earlier allowed step ih =>
    obtain ⟨tree, cwd, holds, property⟩ := ih
    rcases step.cases holds with same | ⟨tree', creates, holds'⟩ | ⟨cwd', enters, holds'⟩
    · exact ⟨tree, cwd, same, property⟩
    · exact ⟨tree', cwd, holds', create _ _ _ _ _ earlier holds allowed creates property⟩
    · exact ⟨tree, cwd', holds', property⟩

theorem ReachedBy.represented {condition : State → Call → Prop} {state : State}
    (reached : ReachedBy condition state) : ∃ tree cwd, Represents state tree cwd := by
  obtain ⟨tree, cwd, holds, _⟩ := reached.tree (P := fun _ => True) trivial (by simp)
  exact ⟨tree, cwd, holds⟩

end RedisVfs
