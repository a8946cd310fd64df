import RedisVfs.Refinement.Building
import RedisVfs.Refinement.Stating
import RedisVfs.Refinement.Viewing

set_option autoImplicit false

namespace RedisVfs

open CString

def Store.SiblingsDistinct (store : Store) : Prop :=
  ∀ d : Int, ((store.folders d).map store.folderName ++ (store.files d).map store.fileName).Nodup

-- A creation is called for an object that the parser reports as missing, and not because of a number
-- that the cut makes -1: no folder beside the object has one, and '..' is never missing otherwise.
structure NewObject (state : State) (formattedPath : Text) (parserState : VfsPathParserState) : Prop where
  missing : parserState.isExistingObject = false
  uncut : ∀ id ∈ state.store.folders (unsigned parserState.parentId), implicitInt id ≠ -1
  proper : (components formattedPath).getLast? ≠ some ['.', '.']

def CreatesNew (state : State) (call : Call) : Prop :=
  call.isCreation → ∀ formattedPath parserState, state.Parses call.path formattedPath parserState →
    NewObject state formattedPath parserState

namespace History

def siblings (history : History) (d : Nat) : List Text :=
  (history.childFolders d ++ history.childFiles d).map history.name

theorem siblings_cons (history : History) (kind : Kind) (parent : Nat) (name : Text) (d : Nat) :
    siblings (⟨kind, parent, name⟩ :: history) d =
      if parent = d then
        match kind with
        | .folder => name :: history.siblings d
        | .file => (history.childFolders d).map history.name ++
            name :: (history.childFiles d).map history.name
      else history.siblings d := by
  have older (kind' : Kind) : (Journal.children history kind' d).map
      (History.name (⟨kind, parent, name⟩ :: history)) =
        (Journal.children history kind' d).map history.name :=
    List.map_congr_left fun id member => Journal.name_older _ _ (Journal.children_le member).2
  have newest : History.name (⟨kind, parent, name⟩ :: history) (history.length + 1) = name :=
    Journal.name_of_entry (Journal.entryAt_newest _ _)
  unfold siblings
  by_cases here : parent = d
  · subst here
    cases kind <;>
      simp [History.childFolders, History.childFiles, Journal.children, older, newest]
  · cases kind <;> simp [History.childFolders, History.childFiles, Journal.children, here, older]

theorem siblings_extend {history : History} {kind : Kind} {parent : Nat} {name : Text}
    (distinct : ∀ d, (history.siblings d).Nodup) (fresh : name ∉ history.siblings parent) :
    ∀ d, (siblings (⟨kind, parent, name⟩ :: history) d).Nodup := by
  intro d
  rw [siblings_cons]
  split
  next here =>
    subst here
    have more : (name :: history.siblings parent).Nodup := List.nodup_cons.mpr ⟨fresh, distinct _⟩
    cases kind with
    | folder => exact more
    | file =>
      refine (List.Perm.nodup_iff ?_).mpr more
      rw [siblings, List.map_append]
      exact List.perm_middle
  next => exact distinct d

theorem absent_fresh {history : History} {d : Nat} {word : Text} {slash : Bool}
    (noFile : history.findFile d word slash = none) (noFolder : history.findFolder d word = none) :
    word ++ trail slash ∉ history.siblings d := by
  intro member
  obtain ⟨id, child, named⟩ := List.mem_map.mp member
  rcases List.mem_append.mp child with folder | file
  · have miss := List.find?_eq_none.mp noFolder id folder
    exact miss (List.isPrefixOf_iff_prefix.mpr ⟨_, named.symm⟩)
  · have miss := findFile_eq_none.mp noFile id file
    cases slash <;> simp_all [fileNamed, trail]

end History

namespace Tree

variable (tree : Tree)

theorem siblings_store (d : Nat) :
    (tree.store.folders d).map tree.store.folderName ++ (tree.store.files d).map tree.store.fileName =
      (tree.history.siblings d).map some := by
  have folders : ((tree.history.childFolders d).map Nat.cast).map tree.store.folderName =
      ((tree.history.childFolders d).map tree.history.name).map some := by
    rw [List.map_map, List.map_map]
    refine List.map_congr_left fun id member => tree.folderName_store (.inr ?_)
    obtain ⟨entry, found, kind, _⟩ := Journal.mem_children.mp member
    exact ⟨entry, found, kind⟩
  have files : ((tree.history.childFiles d).map Nat.cast).map tree.store.fileName =
      ((tree.history.childFiles d).map tree.history.name).map some := by
    rw [List.map_map, List.map_map]
    exact List.map_congr_left fun id member => tree.fileName_store member
  rw [tree.folders_store, tree.files_store, folders, files, History.siblings, List.map_append,
    List.map_append]

theorem siblingsDistinct_of_history (distinct : ∀ d, (tree.history.siblings d).Nodup) :
    tree.store.SiblingsDistinct := by
  intro d
  by_cases natural : 0 ≤ d
  · obtain ⟨n, rfl⟩ := Int.eq_ofNat_of_zero_le natural
    exact tree.siblings_store n ▸ (distinct n).map (Option.some_injective _)
  · obtain ⟨folders, files⟩ := History.store_list_negative tree.history (Int.not_le.mp natural)
    simp [Store.folders, Store.files, folders, files]

end Tree

theorem NewObject.fresh {tree : Tree} {context : FsContext} {d result : Int} {body : Text}
    {parserState : VfsPathParserState} (new : NewObject ⟨tree.store, context⟩ ('/' :: body) parserState)
    (parse : tree.store.parsed d ('/' :: body) = .ok (result, parserState)) (found : result ≠ -1) :
    ('/' :: body).drop parserState.nameOffset ∉ tree.history.siblings (unsigned parserState.parentId) := by
  obtain ⟨missing, uncut, proper⟩ := new
  rw [Store.parsed_name parse]
  rcases Store.parsed_ok parse found with ⟨-, rfl⟩ | ⟨location, tempId, located, known, walk, read⟩
  · simp [rootParserState, initVfsPathParserState] at missing
  · have there := tree.numbered.walkLoop ⟨by omega, by omega⟩ walk
    have last : location.last ≠ ['.', '.'] := by
      rintro dots
      rw [components_slash, Location.components located, ← List.cons_append, List.getLast?_concat, dots] at proper
      exact proper rfl
    rw [located]
    rw [tree.parseLastName_any_run] at read
    have read := congrArg Prod.fst read
    unfold Tree.parseLast at read
    split at read
    · cases read
      simp [Location.parserState, initVfsPathParserState] at missing
    · split at read
      · cases read
        simp [Location.parserState, initVfsPathParserState] at missing
      next noFile =>
        split at read
        · cases read
        next id named =>
          split at read
          next lost =>
            cases read
            refine History.absent_fresh noFile ?_
            unfold Tree.folderFrom at named
            split at named
            · cases named
              rw [implicitInt_of_small there.1.1 there.1.2] at lost
              exact absurd lost known
            · cases folder : tree.history.findFolder (unsigned tempId) location.last with
              | none => rfl
              | some child =>
                rw [folder] at named
                cases named
                have member := (History.mem_of_findFolder folder).1
                exact absurd lost (uncut child (tree.mem_folders_store.mpr member))
          next =>
            split at read
            · cases read
            · cases read
              simp [Location.parserState, initVfsPathParserState] at missing

theorem Creates.distinct {state : State} {tree tree' : Tree} {cwd : Text} {call : Call}
    (holds : Represents state tree cwd) (new : CreatesNew state call)
    (creates : Creates tree cwd call tree') (distinct : ∀ d, (tree.history.siblings d).Nodup) :
    ∀ d, (tree'.history.siblings d).Nodup := by
  obtain ⟨kind, path, formattedPath, parserState, takes, accepts, rfl, parses, rfl⟩ := creates
  obtain rfl := holds.state_eq
  have unknown := new (by simp) formattedPath parserState (by simpa using parses)
  obtain ⟨_, _, format, _, parse⟩ := State.parses_iff.mp parses
  obtain ⟨body, rfl⟩ := Store.format_absolute format
  exact History.siblings_extend distinct (unknown.fresh parse (by decide))

theorem siblings_distinct {state : State} (reached : ReachedBy CreatesNew state) :
    state.store.SiblingsDistinct := by
  have fresh (d : Nat) : (Tree.fresh.history.siblings d).Nodup := by
    simp [Tree.fresh, History.siblings, Journal.children]
  obtain ⟨tree, cwd, holds, distinct⟩ := reached.tree
    (P := fun tree => ∀ d, (tree.history.siblings d).Nodup) fresh
    fun before tree cwd call tree' _ holds new creates => creates.distinct holds new
  exact holds.store ▸ tree.siblingsDistinct_of_history distinct

-- Names stay distinct as long as no creation repeats one; an existing object never stops a creation.
theorem sibling_names (state : State) :
    (ReachedBy CreatesNew state → state.store.SiblingsDistinct) ∧
      ∀ (call : Call) (formattedPath : Text) (parserState : VfsPathParserState),
        Reachable state → state.store.Accepts → call.isCreation →
          state.Parses call.path formattedPath parserState → parserState.isExistingObject = true →
            (∃ fuel store, (call.program fuel state.context).run execute state.store =
              (.ok (true, state.context), store)) ∧
            ∀ fuel result context store, (call.program fuel state.context).run execute state.store =
              (.ok (result, context), store) → result = true ∧ store ≠ state.store := by
  refine ⟨siblings_distinct, ?_⟩
  intro call formattedPath parserState reached accepts creation parses _
  obtain ⟨tree, cwd, holds⟩ := reached.represented
  obtain ⟨kind, path, rfl⟩ := creation_cases creation
  rw [Kind.call_path] at parses
  have run := holds.creation accepts kind parses
  obtain ⟨fuel, _, format, _⟩ := State.parses_iff.mp parses
  refine ⟨⟨fuel, _, by rw [run, format]⟩, fun fuel' result context store ran => ?_⟩
  rw [run] at ran
  split at ran
  · simp at ran
  next =>
    obtain ⟨⟨rfl, rfl⟩, rfl⟩ := by simpa using ran
    exact ⟨rfl, holds.store ▸ tree.created_store_ne kind _⟩

theorem Represents.createsNew {state : State} {tree : Tree} {cwd body : Text}
    (holds : Represents state tree cwd) (small : tree.Small) (kind : Kind)
    (new : (tree.history.parse 0 ('/' :: body)).2.isExistingObject = false)
    (proper : (components ('/' :: body)).getLast? ≠ some ['.', '.']) :
    CreatesNew state (kind.call ('/' :: body)) := by
  intro _ formattedPath parserState parses
  rw [Kind.call_path] at parses
  obtain ⟨fuel, body', rfl, format, parse⟩ := (holds.parses_uncut_iff (small.uncut _ _)).mp parses
  have same : body' = body := by simpa [eq_comm] using format
  rw [same] at parse ⊢
  obtain rfl := holds.state_eq
  refine ⟨by simpa [parse] using new, fun id member => ?_, proper⟩
  rw [tree.folders_store] at member
  obtain ⟨child, listed, rfl⟩ := List.mem_map.mp member
  have bound := (Journal.children_le listed).2
  unfold Tree.Small at small
  rw [implicitInt_of_small (by omega) (by omega)]
  omega

theorem sibling_names_folder_and_file : ∃ state : State,
    (state.store.folders 0).map state.store.folderName = [some "a".toList] ∧
      (state.store.files 0).map state.store.fileName = [some "b".toList] ∧
      state.store.SiblingsDistinct ∧
        ∃ fuel store, ((Call.mkdir "/a".toList).program fuel state.context).run execute state.store =
          (.ok (true, state.context), store) := by
  have built : ReachedBy CreatesNew ⟨Tree.fresh.store, { cwd := ['/'] }⟩ := .built Redis.Store.empty
  have placed : Tree.fresh.history.placeOfPath "a".toList = some (0, "a".toList) := by decide
  obtain ⟨tree, history, first⟩ := ReachedBy.creates Tree.small_fresh built .folder placed
    (Represents.createsNew ⟨rfl, rfl⟩ Tree.small_fresh _ (by decide) (by decide))
  have placed' : tree.history.placeOfPath "b".toList = some (0, "b".toList) := by
    rw [history]; decide
  have small : tree.Small := by rw [Tree.Small, history]; decide
  obtain ⟨tree', history', second⟩ := ReachedBy.creates small first .file placed'
    (Represents.createsNew ⟨rfl, rfl⟩ small _ (by rw [history]; decide) (by decide))
  rw [history] at history'
  have reached : Reachable ⟨tree'.store, { cwd := ['/'] }⟩ := second.mono fun _ _ _ => trivial
  have parses : State.Parses ⟨tree'.store, { cwd := ['/'] }⟩ "/a".toList "/a".toList
      (tree'.history.parse 0 "/a".toList).2 :=
    Represents.parses_small ⟨rfl, rfl⟩ (by rw [Tree.Small, history']; decide) 0 rfl (by rw [history']; decide)
  refine ⟨_, ?_, ?_, (sibling_names _).1 second, ?_⟩
  · rw [Tree.store, history']; decide
  · rw [Tree.store, history']; decide
  · exact ((sibling_names _).2 (.mkdir "/a".toList) _ _ reached
      (tree'.accepts_iff.mpr (by rw [history']; decide)) rfl parses (by rw [history']; decide)).1

-- Two folders "a" in the root.
theorem sibling_names_twice : ∃ state : State,
    ReachedBy (fun _ call => call = .mkdir "/a".toList) state ∧ ¬ state.store.SiblingsDistinct := by
  obtain ⟨tree, made, reached⟩ := @reachedBy_creating (fun _ call => call = .mkdir "/a".toList)
    [(.folder, "a".toList), (.folder, "a".toList)] (by simp [Kind.call]) (by decide)
  have history : tree.history = [⟨.folder, 0, "a".toList⟩, ⟨.folder, 0, "a".toList⟩] := by
    rw [made]; decide
  refine ⟨_, reached, fun distinct => ?_⟩
  have repeated := distinct 0
  simp only [Tree.store, history] at repeated
  revert repeated
  decide

end RedisVfs
