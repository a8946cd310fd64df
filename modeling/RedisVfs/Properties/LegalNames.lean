import RedisVfs.Refinement.Building

set_option autoImplicit false

namespace RedisVfs

open CString

def Store.NamesLegal (store : Store) : Prop :=
  ∀ (id : Int) (value : Text),
    (id ≠ 0 → (store.hashes (.folderInfo id)).lookup .name = some value → Legal (unquoted value)) ∧
      ((store.hashes (.fileInfo id)).lookup .name = some value → Legal (unquoted value))

def CreatesLegal (state : State) (call : Call) : Prop :=
  call.isCreation → ∀ formattedPath parserState, state.Parses call.path formattedPath parserState →
    Legal (Segments.rest '/' call.path)

theorem Store.climb_ends {store : Store} {fuel : Nat} {id : Int} {output text : Text}
    (climbed : store.climb fuel id output = .ok text) : ∃ front, text = front ++ ['/'] := by
  induction fuel generalizing id output with
  | zero =>
    unfold Store.climb at climbed
    split at climbed
    · exact ⟨output, (Except.ok.inj climbed).symm⟩
    · simp at climbed
  | succ fuel ih =>
    unfold Store.climb at climbed
    split at climbed
    · exact ⟨output, (Except.ok.inj climbed).symm⟩
    · dsimp only at climbed
      split at climbed
      · simp at climbed
      · exact ih climbed

theorem Store.format_rest {store : Store} {fuel : Nat} {context : FsContext} {path formatted : Text}
    (ok : store.format fuel context path = .ok formatted) :
    Segments.rest '/' formatted = Segments.rest '/' path := by
  rcases Store.format_ok ok with ⟨-, rfl⟩ | ⟨-, relative, d, left, -, -, climbed, rfl⟩
  · rfl
  · obtain ⟨front, rfl⟩ := Store.climb_ends climbed
    rw [List.append_assoc, List.singleton_append, Segments.rest_behind]
    unfold removeAnyPathPrefix
    rw [if_neg relative]
    split
    next dot =>
      have split : path = ['.'] ++ '/' :: path.drop 2 := by
        conv_lhs => rw [← List.take_append_drop 2 path, dot]
        rfl
      conv_rhs => rw [split, Segments.rest_behind]
    next => rfl

theorem Store.parsed_legal {store : Store} {d : Int} {body : Text} {result : Int}
    {parserState : VfsPathParserState} (parse : store.parsed d ('/' :: body) = .ok (result, parserState)) :
    Legal (('/' :: body).drop parserState.nameOffset) ↔ Legal (Segments.rest '/' ('/' :: body)) := by
  rw [Store.parsed_name parse]
  cases located : locate ('/' :: body) with
  | none =>
    obtain rfl := locate_root located
    decide
  | some location =>
    rw [(locate_some located).1, location.rest_text]
    cases slash : location.slash with
    | true =>
      exact iff_of_false (fun legal => legal.2.1 (by simp [slash, trail])) fun legal => legal.1 rfl
    | false => simp [slash, trail]

theorem State.Parses.legal {state : State} {path formattedPath : Text}
    {parserState : VfsPathParserState} (parses : state.Parses path formattedPath parserState) :
    Legal (formattedPath.drop parserState.nameOffset) ↔ Legal (Segments.rest '/' path) := by
  obtain ⟨fuel, _, format, _, parse⟩ := State.parses_iff.mp parses
  obtain ⟨body, rfl⟩ := Store.format_absolute format
  rw [Store.parsed_legal parse, Store.format_rest format]

namespace Tree

variable (tree : Tree)

theorem namesLegal_iff :
    tree.store.NamesLegal ↔
      ∀ id entry, Journal.entryAt tree.history id = some entry → Legal entry.name := by
  constructor
  · intro legal id entry found
    have held := History.store_info_some found
    have nonroot : (id : Int) ≠ 0 := by have := Journal.entryAt_le found; omega
    have name : (tree.store.hashes (infoKey entry.kind id)).lookup .name = some (quoted entry.name) := by
      rw [held, infoHash_name]
    obtain ⟨folder, file⟩ := legal id (quoted entry.name)
    rw [unquoted_quoted] at folder file
    cases kind : entry.kind with
    | folder => exact folder nonroot (by rwa [kind] at name)
    | file => exact file (by rwa [kind] at name)
  · intro legal
    have held {key : Key} (nonroot : key ≠ .folderInfo 0) {value : Text}
        (name : (tree.store.hashes key).lookup .name = some value) : Legal (unquoted value) := by
      have present : tree.store.hashes key ≠ [] := fun empty => by simp [empty] at name
      obtain ⟨id, entry, found, rfl⟩ := History.store_info_entry nonroot present
      rw [History.store_info_some found, infoHash_name] at name
      rw [← Option.some.inj name, unquoted_quoted]
      exact legal id entry found
    intro id value
    exact ⟨fun nonroot name => held (by simpa using nonroot) name, fun name => held (by simp) name⟩

theorem namesLegal_extend (kind : Kind) (place : Nat × Text)
    (takes : tree.history.Takes place.1 place.2) (accepts : tree.store.Accepts) :
    (tree.extend kind place takes accepts).store.NamesLegal ↔
      tree.store.NamesLegal ∧ Legal place.2 := by
  rw [namesLegal_iff, namesLegal_iff, extend_history]
  exact Journal.forall_entry_cons (P := fun entry => Legal entry.name)

end Tree

theorem Creates.legal {state : State} {tree tree' : Tree} {cwd : Text} {call : Call}
    (holds : Represents state tree cwd) (allowed : CreatesLegal state call)
    (creates : Creates tree cwd call tree') (legal : tree.store.NamesLegal) :
    tree'.store.NamesLegal := by
  obtain ⟨kind, path, formattedPath, parserState, takes, accepts, rfl, parses, rfl⟩ := creates
  rw [← holds.state_eq] at parses
  have last := allowed (by simp) _ _ (by simpa using parses)
  rw [Kind.call_path, ← parses.legal] at last
  rw [Tree.namesLegal_extend]
  exact ⟨legal, last⟩

-- Names stay legal as long as every creation is under a path with a legal last component, and
-- the first one that is not stores a name that is no legal component.
theorem legal_names (state : State) :
    (ReachedBy CreatesLegal state → state.store.NamesLegal) ∧
      ∀ (call : Call) (formattedPath : Text) (parserState : VfsPathParserState)
        (fuel : Nat) (result : Bool) (context : FsContext) (store : Store), Reachable state →
          state.store.Accepts → call.isCreation → state.Parses call.path formattedPath parserState →
            ¬ Legal (Segments.rest '/' call.path) →
              (call.program fuel state.context).run execute state.store =
                (.ok (result, context), store) → ¬ store.NamesLegal := by
  constructor
  · intro reached
    have fresh : Tree.fresh.store.NamesLegal := by
      rw [Tree.namesLegal_iff]
      simp [Tree.fresh, Journal.entryAt]
    obtain ⟨tree, cwd, holds, legal⟩ := reached.tree (P := fun tree => tree.store.NamesLegal) fresh
      fun before tree cwd call tree' _ holds allowed creates => creates.legal holds allowed
    exact holds.store ▸ legal
  · intro call formattedPath parserState fuel result context store reached accepts creation parses
      illegal ran
    obtain ⟨tree, cwd, holds⟩ := reached.represented
    obtain ⟨kind, path, rfl⟩ := creation_cases creation
    rw [Kind.call_path] at parses illegal
    rw [holds.creation accepts kind parses] at ran
    split at ran
    · simp at ran
    next =>
      obtain ⟨_, rfl⟩ := by simpa using ran
      have extended := tree.namesLegal_extend kind (_, _) (holds.takes parses) (holds.store ▸ accepts)
      rw [← parses.legal] at illegal
      exact fun legal => illegal (extended.mp legal).2

theorem legal_names_folder_and_file : ∃ state : State,
    state.store.lists (.folderFolders 0) = ["1".toList] ∧
      state.store.lists (.folderFiles 1) = ["2".toList] ∧ state.store.NamesLegal ∧
        ∀ (fuel : Nat) (result : Bool) (context : FsContext) (store : Store),
          ((Call.mkdir "/b/".toList).program fuel state.context).run execute state.store =
            (.ok (result, context), store) → ¬ store.NamesLegal := by
  have legal : ∀ creation ∈ [(Kind.folder, "a".toList), (Kind.file, "a/f".toList)],
      Legal (Segments.rest '/' (Kind.call creation.1 ('/' :: creation.2)).path) := by decide
  obtain ⟨tree, made, reached⟩ := @reachedBy_creating CreatesLegal
    [(.folder, "a".toList), (.file, "a/f".toList)]
    (fun _ creation member _ _ _ _ => legal creation member) (by decide)
  have history : tree.history = [⟨.file, 1, "f".toList⟩, ⟨.folder, 0, "a".toList⟩] := by
    rw [made]; decide
  have reached' : Reachable ⟨tree.store, { cwd := ['/'] }⟩ := reached.mono fun _ _ _ => trivial
  have small : tree.Small := by simp [Tree.Small, history]
  have parses : State.Parses ⟨tree.store, { cwd := ['/'] }⟩ "/b/".toList "/b/".toList
      (tree.history.parse 0 "/b/".toList).2 :=
    Represents.parses_small ⟨rfl, rfl⟩ small 0 rfl (by rw [history]; decide)
  refine ⟨_, ?_, ?_, (legal_names _).1 reached, fun fuel result context store ran => ?_⟩
  · rw [Tree.store, history]; decide
  · rw [Tree.store, history]; decide
  · exact (legal_names _).2 (.mkdir "/b/".toList) _ _ fuel result context store reached'
      small.accepts rfl parses (by decide) ran

-- The folder made under "/a/" is named "a/".
theorem legal_names_closing_slash : ∃ state : State,
    ReachedBy (fun _ call => call = .mkdir "/a/".toList) state ∧ ¬ state.store.NamesLegal := by
  obtain ⟨tree, made, reached⟩ := @reachedBy_creating (fun _ call => call = .mkdir "/a/".toList)
    [(.folder, "a/".toList)] (by simp [Kind.call]) (by decide)
  have history : tree.history = [⟨.folder, 0, "a/".toList⟩] := by rw [made]; decide
  refine ⟨_, reached, fun legal => ?_⟩
  have stored := (legal 1 (quoted "a/".toList)).1 (by decide) (by rw [Tree.store, history]; decide)
  revert stored
  decide

end RedisVfs
