import RedisVfs.Properties.Resolution
import RedisVfs.Tree.Growth

set_option autoImplicit false

namespace RedisVfs

open CString Directory

def Store.Resolves (store : Store) (d : Int) (path : Text) (id : Int) : Prop :=
  (vfsGetDirIdFromPath d path path.length).run execute store = (.ok id, store)

def Store.ParsesFile (store : Store) (d : Int) (path : Text) (parserState : VfsPathParserState) : Prop :=
  (vfsParsePath initVfsPathParserState path path.length d).run execute store =
      (.ok (0, parserState), store) ∧
    parserState.isExistingObject = true ∧ parserState.isFilePath = true

-- Where the folders on a path stand in the folder of a new object and the next component meets it,
-- the path leads back up at once.
def Store.Undisturbed (store : Store) (kind : Kind) (parentId : Int) (name : Text) (d : Int)
    (path : Text) : Prop :=
  ∀ before word after, pathWords path = before ++ word :: after →
    store.Resolves d (pathOf path before) parentId →
      kind.catches name word → kind = .folder ∧ Returns after

-- The creation of this call leaves the path alone.
def State.Spares (state : State) (kind : Kind) (callPath : Text) (d : Int) (path : Text) : Prop :=
  ∀ formattedPath parserState, state.Parses callPath formattedPath parserState →
    state.store.Undisturbed kind parserState.parentId (formattedPath.drop parserState.nameOffset) d path

namespace Tree

variable (tree : Tree)

theorem resolves_iff {d start : Nat} {path : Text} (from_ : origin d path = start)
    (there : tree.history.Linked start)
    (within : tree.history.view.Within (· < 2 ^ 31) start (pathWords path)) (id : Int) :
    tree.store.Resolves d path id ↔ asId (tree.history.walk start (pathWords path)) = id := by
  simp [Store.Resolves, tree.dirId_run from_ there within]

theorem stands_iff {m : Nat} {parentId : Int} (bound : m ≤ tree.history.length)
    (parent : Ranged tree.history.length parentId) :
    asId (some m) = parentId ↔ some m = some (unsigned parentId) := by
  have bounded := tree.bounded
  obtain ⟨⟨low, high⟩, _⟩ := parent
  unfold LONG_MAX at bounded
  rw [asId, Option.some_inj]
  unfold CString.unsigned
  omega

theorem undisturbed_iff {d start end_ : Nat} {path : Text} {kind : Kind} {parentId : Int} {name : Text}
    (from_ : origin d path = start) (there : tree.history.Linked start)
    (within : tree.history.view.Within (· < 2 ^ 31) start (pathWords path))
    (parent : Ranged tree.history.length parentId)
    (walk : tree.history.walk start (pathWords path) = some end_) :
    tree.store.Undisturbed kind parentId name d path ↔
      tree.history.Undisturbed ⟨kind, unsigned parentId, name⟩ start (pathWords path) := by
  have stands {before : List Text} {word : Text} {after : List Text}
      (split : pathWords path = before ++ word :: after) :
      tree.store.Resolves d (pathOf path before) parentId ↔
        tree.history.walk start before = some (unsigned parentId) := by
    have first : tree.history.view.Within (· < 2 ^ 31) start (pathWords (pathOf path before)) := by
      rw [pathOf_words split]
      exact (split ▸ within).start
    rw [tree.resolves_iff ((pathOf_origin split d).trans from_) there first, pathOf_words split]
    rw [split, History.walk_append] at walk
    obtain ⟨m, first, _⟩ := Option.bind_eq_some_iff.mp walk
    rw [first, tree.stands_iff (there.walk first).le parent]
  exact forall_congr' fun before => forall_congr' fun word => forall_congr' fun after =>
    forall_congr' fun split => imp_congr (stands split) Iff.rfl

theorem parsesFile_iff {d start : Nat} {path : Text} (from_ : origin d path = start)
    (there : tree.history.Linked start)
    (within : ParsesWithin tree.history.view (· < 2 ^ 31) start path) {parserState : VfsPathParserState} :
    tree.store.ParsesFile d path parserState ↔
      ∃ location e id, locate path = some location ∧ tree.history.walk start location.folders = some e ∧
        location.last ≠ [] ∧ tree.history.findFile e location.last location.slash = some id ∧
          parserState = { location.parserState with
            id := id, isFilePath := true, isDir := false, parentId := e } := by
  by_cases empty : path = []
  · subst empty
    have none : locate [] = none := rfl
    simp [Store.ParsesFile, none, vfsParsePath]
  · rw [Store.ParsesFile, tree.parsePath_from _ there empty from_ within]
    constructor
    · rintro ⟨ran, existing, file⟩
      have parse : tree.history.parse start path = (0, parserState) := by simpa using ran
      unfold History.parse at parse
      cases located : locate path with
      | none =>
        simp only [located, Prod.mk.injEq, true_and] at parse
        subst parse
        simp [rootParserState] at file
      | some location =>
        cases walk : tree.history.walk start location.folders with
        | none => simp [located, walk] at parse
        | some e =>
          simp only [located, walk, Prod.mk.injEq, true_and] at parse
          unfold History.parseIn at parse
          split at parse
          · subst parse
            simp [Location.parserState, initVfsPathParserState] at file
          next named =>
            split at parse
            · subst parse
              simp at existing
            next id look =>
              refine ⟨location, e, id, rfl, walk, named, ?_, parse.symm⟩
              exact History.findFile_of_lookup look
            next => subst parse; simp at file
    · rintro ⟨location, e, id, located, walk, named, found, rfl⟩
      have look : tree.history.lookup e location.last location.slash = some (.file, id) := by
        rw [History.lookup, found]
      refine ⟨?_, rfl, rfl⟩
      simp only [History.parse, located, walk, History.parseIn, if_neg named, look]

end Tree

theorem Location.pathLead {location : Location} {path : Text} (located : locate path = some location) :
    pathLead path = location.lead := by
  have absolute : location.absolute = decide (path.head? = some '/') := by
    rw [Bool.eq_iff_iff, decide_eq_true_eq]
    exact (locate_some located).2
  rw [RedisVfs.pathLead, Location.lead, absolute]

theorem Location.take_offset {location : Location} {path : Text} (located : locate path = some location) :
    path.take location.offset = pathOf path location.folders := by
  rw [pathOf, Location.pathLead located]
  conv_lhs => rw [(locate_some located).1, location.text_split]
  rw [Location.offset, ← List.length_append, List.take_left]

theorem Location.pathWords {location : Location} {path : Text} (located : locate path = some location) :
    ∃ after, pathWords path = location.folders ++ after := by
  refine ⟨Segments.words '/' (location.last ++ trail location.slash), ?_⟩
  have body : path.drop (RedisVfs.pathLead path).length =
      Segments.unite '/' location.folders ++ (location.last ++ trail location.slash) := by
    rw [Location.pathLead located]
    conv_lhs => rw [(locate_some located).1]
    rw [Location.text, List.drop_left]
  rw [RedisVfs.pathWords, body, Segments.words_unite location.foldersFree]

namespace Tree

variable {tree tree' : Tree} {entry : Journal.Entry Kind Text}

theorem findFile_kept_iff (grown : tree'.history = entry :: tree.history) {start e id : Nat}
    {words : List Text} {last : Text} {slash : Bool}
    (found : tree.history.findFile e last slash = some id) :
    (∃ e', tree'.history.walk start words = some e' ∧ tree'.history.findFile e' last slash = some id) ↔
      tree'.history.walk start words = some e := by
  constructor
  · rintro ⟨e', walk', found'⟩
    obtain ⟨old, held, _, parent⟩ := Journal.mem_children.mp (History.mem_of_findFile found).1
    obtain ⟨new, held', _, parent'⟩ := Journal.mem_children.mp (History.mem_of_findFile found').1
    rw [grown, Journal.entryAt_older _ (Journal.entryAt_le held).2, held] at held'
    cases held'
    rw [walk', ← parent', parent]
  · intro walk'
    refine ⟨e, walk', ?_⟩
    rw [grown, History.findFile_older, found, Option.some_or]

end Tree

theorem State.Parses.spares_iff {state : State} {callPath formattedPath : Text}
    {parserState : VfsPathParserState} (parses : state.Parses callPath formattedPath parserState)
    {kind : Kind} {d : Int} {path : Text} :
    state.Spares kind callPath d path ↔ state.store.Undisturbed kind parserState.parentId
      (formattedPath.drop parserState.nameOffset) d path := by
  constructor
  · intro spares
    exact spares formattedPath parserState parses
  · intro calm formattedPath' parserState' parses'
    obtain ⟨rfl, rfl⟩ := parses.unique parses'
    exact calm

namespace Tree

variable {tree tree' : Tree} {kind : Kind} {parentId : Int} {name : Text}
  (grown : tree'.history = ⟨kind, unsigned parentId, name⟩ :: tree.history)
  (parent : Ranged tree.history.length parentId)
  {d start : Nat} {path : Text} (from_ : origin d path = start) (there : tree.history.Linked start)

include grown parent from_ there

theorem resolves_kept_iff (within : tree.history.view.Within (· < 2 ^ 31) start (pathWords path))
    (within' : tree'.history.view.Within (· < 2 ^ 31) start (pathWords path)) {id : Int}
    (known : id ≠ -1) (resolves : tree.store.Resolves d path id) :
    tree'.store.Resolves d path id ↔ tree.store.Undisturbed kind parentId name d path := by
  have there' : tree'.history.Linked start := grown ▸ there.older _
  rw [tree.resolves_iff from_ there within] at resolves
  rw [tree'.resolves_iff from_ there' within']
  cases walk : tree.history.walk start (pathWords path) with
  | none => simp [walk, asId, known.symm] at resolves
  | some e =>
    rw [walk] at resolves
    subst resolves
    rw [tree.undisturbed_iff from_ there within parent walk, ← walk_kept_iff grown there walk]
    exact asId_eq_natCast

theorem parsesFile_kept_iff (within : ParsesWithin tree.history.view (· < 2 ^ 31) start path)
    (within' : ParsesWithin tree'.history.view (· < 2 ^ 31) start path)
    {parserState : VfsPathParserState} (parses : tree.store.ParsesFile d path parserState) :
    (∃ parserState', tree'.store.ParsesFile d path parserState' ∧ parserState'.id = parserState.id) ↔
      tree.store.Undisturbed kind parentId name d (path.take parserState.nameOffset) := by
  have there' : tree'.history.Linked start := grown ▸ there.older _
  obtain ⟨location, e, id, located, walk, named, found, rfl⟩ :=
    (tree.parsesFile_iff from_ there within).mp parses
  obtain ⟨after, split⟩ := Location.pathWords located
  have folders := pathOf_words split
  have here : origin d (path.take location.offset) = start := by
    rw [Location.take_offset located, pathOf_origin split, from_]
  have offset : ({ location.parserState with
      id := id, isFilePath := true, isDir := false, parentId := e } : VfsPathParserState).nameOffset =
        location.offset := rfl
  have words : pathWords (path.take location.offset) = location.folders := by
    rw [Location.take_offset located, folders]
  rw [offset, tree.undisturbed_iff here there (words.symm ▸ (within location located).1) parent
    (words.symm ▸ walk), words, ← walk_kept_iff grown there walk, ← findFile_kept_iff grown found]
  constructor
  · rintro ⟨parserState', parses', same⟩
    obtain ⟨location', e', id', located', walk', _, found', rfl⟩ :=
      (tree'.parsesFile_iff from_ there' within').mp parses'
    cases located.symm.trans located'
    obtain rfl : id' = id := by simpa using same
    exact ⟨e', walk', found'⟩
  · rintro ⟨e', walk', found'⟩
    exact ⟨_, (tree'.parsesFile_iff from_ there' within').mpr
      ⟨location, e', id, located, walk', named, found', rfl⟩, rfl⟩

end Tree

end RedisVfs
