import RedisVfs.Refinement.Building
import RedisVfs.Refinement.Denoting

set_option autoImplicit false

namespace RedisVfs

open CString

def VfsPathParserState.IsNew (parserState : VfsPathParserState) (store : Store) : Prop :=
  parserState.isExistingObject = false ∧ parserState.id = -1 ∧ store.FolderReached parserState.parentId

def VfsPathParserState.IsFile (parserState : VfsPathParserState) (store : Store) : Prop :=
  parserState.isExistingObject = true ∧ parserState.isFilePath = true ∧ parserState.isDir = false ∧
    parserState.id ∈ store.files parserState.parentId

def VfsPathParserState.IsFolder (parserState : VfsPathParserState) (store : Store) : Prop :=
  parserState.isExistingObject = true ∧ parserState.isDir = true ∧ parserState.isFilePath = false ∧
    (parserState.id ∈ store.folders parserState.parentId ∨
      parserState.id = ROOT_FOLDER_ID ∧ parserState.parentId = ROOT_PARENT_ID)

def ExactlyOne (first second third : Prop) : Prop :=
  (first ∧ ¬ second ∧ ¬ third) ∨ (¬ first ∧ second ∧ ¬ third) ∨ (¬ first ∧ ¬ second ∧ third)

def Store.ParsesSoundly (store : Store) (junk : VfsPathParserState) (d : Int) (path : Text) : Prop :=
  ∃ code parserState, (vfsParsePath junk path path.length d).run execute store =
      (.ok (code, parserState), store) ∧
    (code = 0 → ExactlyOne (parserState.IsNew store) (parserState.IsFile store)
      (parserState.IsFolder store))

-- Where the folders of the path lead to a folder, the last name is not empty; and if no file there is
-- called so, it is neither '.' in the root nor '..' in a folder whose parent is the root.
def Store.LastNameBelow (store : Store) (d : Int) (path : Text) : Prop :=
  ∀ location, locate path = some location →
    ∀ m, store.view.leads (origin d path) location.folders = some m →
      location.last ≠ [] ∧ (store.oldestFile m location.last location.slash = none →
        (location.last = ['.'] → m ≠ ROOT_FOLDER_ID) ∧
          (location.last = ['.', '.'] → store.folderParent m ≠ some ROOT_FOLDER_ID))

namespace VfsPathParserState

variable {parserState : VfsPathParserState} {store : Store}

theorem exactlyOne_new (missing : parserState.isExistingObject = false) :
    ExactlyOne (parserState.IsNew store) (parserState.IsFile store) (parserState.IsFolder store) ↔
      parserState.IsNew store := by
  simp [ExactlyOne, IsFile, IsFolder, missing]

theorem exactlyOne_file (present : parserState.isExistingObject = true)
    (folder : parserState.isDir = false) :
    ExactlyOne (parserState.IsNew store) (parserState.IsFile store) (parserState.IsFolder store) ↔
      parserState.IsFile store := by
  simp [ExactlyOne, IsNew, IsFolder, present, folder]

theorem exactlyOne_folder (present : parserState.isExistingObject = true)
    (file : parserState.isFilePath = false) :
    ExactlyOne (parserState.IsNew store) (parserState.IsFile store) (parserState.IsFolder store) ↔
      parserState.IsFolder store := by
  simp [ExactlyOne, IsNew, IsFile, present, file]

end VfsPathParserState

namespace Tree

variable (tree : Tree)

theorem listed_by_parent_iff {id : Nat} (linked : tree.history.Linked id) :
    (id : Int) ∈ tree.store.folders (tree.history.parent id) ↔ id ≠ 0 := by
  rw [tree.mem_folders_store]
  constructor
  · rintro member rfl
    exact absurd (Journal.children_le member).1 (by decide)
  · exact fun nonroot => (tree.parent_lists linked nonroot).1

theorem folderNamed_root_iff {m id : Nat} (linked : tree.history.Linked m) {word : Text}
    (named : tree.history.folderNamed m word = some id) :
    id ≠ 0 ↔ (word = ['.'] → (m : Int) ≠ ROOT_FOLDER_ID) ∧
      (word = ['.', '.'] → tree.store.folderParent m ≠ some ROOT_FOLDER_ID) := by
  rw [tree.folderParent_store linked]
  unfold History.folderNamed at named
  split at named
  next dot =>
    cases named
    simp [dot, ROOT_FOLDER_ID]
  next notDot =>
    split at named
    next dots =>
      cases named
      simp [dots, ROOT_FOLDER_ID]
    next notDots =>
      have positive := (Journal.children_le (History.mem_of_findFolder named).1).1
      simp [notDot, notDots]
      omega

theorem soundIn_iff (location : Location) {m : Nat} (linked : tree.history.Linked m) :
    ExactlyOne ((tree.history.parseIn location m).IsNew tree.store)
        ((tree.history.parseIn location m).IsFile tree.store)
        ((tree.history.parseIn location m).IsFolder tree.store) ↔
      location.last ≠ [] ∧ (tree.store.oldestFile m location.last location.slash = none →
        (location.last = ['.'] → (m : Int) ≠ ROOT_FOLDER_ID) ∧
          (location.last = ['.', '.'] → tree.store.folderParent m ≠ some ROOT_FOLDER_ID)) := by
  rw [tree.oldestFile_store, Option.map_eq_none_iff]
  unfold History.parseIn
  by_cases unnamed : location.last = []
  · rw [if_pos unnamed]
    refine (VfsPathParserState.exactlyOne_file rfl rfl).trans (iff_of_false ?_ (by simp [unnamed]))
    simp [VfsPathParserState.IsFile, Location.parserState, initVfsPathParserState]
  · rw [if_neg unnamed]
    cases object : tree.history.lookup m location.last location.slash with
    | none =>
      have reached : tree.store.FolderReached m := tree.reached_iff.mpr ⟨m, rfl, linked⟩
      have missing := (History.lookup_eq_none.mp object).2
      refine (VfsPathParserState.exactlyOne_new rfl).trans
        (iff_of_true ⟨rfl, rfl, reached⟩ ⟨unnamed, fun _ => ⟨?_, ?_⟩⟩)
      · intro dot
        simp [History.folderNamed, dot] at missing
      · intro dots
        simp [History.folderNamed, dots] at missing
    | some object' =>
      obtain ⟨kind, id⟩ := object'
      cases kind with
      | file =>
        have found := History.findFile_of_lookup object
        refine (VfsPathParserState.exactlyOne_file rfl rfl).trans
          (iff_of_true ⟨rfl, rfl, rfl, ?_⟩ (by simp [unnamed, found]))
        exact tree.mem_files_store.mpr (History.mem_of_findFile found).1
      | folder =>
        obtain ⟨noFile, named⟩ := History.lookup_folder object
        have below := tree.listed_by_parent_iff (linked.folderNamed named)
        have last := tree.folderNamed_root_iff linked named
        have sentinel : (tree.history.parent id : Int) ≠ ROOT_PARENT_ID := by
          unfold ROOT_PARENT_ID
          omega
        refine (VfsPathParserState.exactlyOne_folder rfl rfl).trans ?_
        rw [← last, noFile]
        simp [VfsPathParserState.IsFolder, below, sentinel, unnamed, Location.parserState,
          initVfsPathParserState]

theorem parsesSoundly_iff (junk : VfsPathParserState) {d : Int} {start : Nat} {path : Text}
    (nonempty : path ≠ []) (from_ : origin d path = start) (there : tree.history.Linked start)
    (within : ParsesWithin tree.history.view (· < 2 ^ 31) start path) :
    tree.store.ParsesSoundly junk d path ↔ tree.store.LastNameBelow d path := by
  have answered : tree.store.ParsesSoundly junk d path ↔ ((tree.history.parse start path).1 = 0 →
      ExactlyOne ((tree.history.parse start path).2.IsNew tree.store)
        ((tree.history.parse start path).2.IsFile tree.store)
        ((tree.history.parse start path).2.IsFolder tree.store)) := by
    unfold Store.ParsesSoundly
    rw [tree.parsePath_from junk there nonempty from_ within]
    constructor
    · rintro ⟨code, parserState, same, sound⟩
      simp only [Prod.mk.injEq, Except.ok.injEq, and_true] at same
      rwa [same]
    · exact fun sound => ⟨_, _, rfl, sound⟩
  rw [answered]
  unfold History.parse Store.LastNameBelow
  cases located : locate path with
  | none =>
    refine iff_of_true (fun _ => ?_) (by simp)
    exact (VfsPathParserState.exactlyOne_folder rfl rfl).mpr ⟨rfl, rfl, rfl, .inr ⟨rfl, rfl⟩⟩
  | some location =>
    simp only [Option.some.injEq, forall_eq', from_, tree.leads_store there]
    cases walk : tree.history.walk start location.folders with
    | none => simp
    | some m =>
      simp only [Option.map_some, Option.some.injEq, forall_eq', forall_const]
      exact tree.soundIn_iff location (there.walk walk)

theorem denotes_parse {d : Int} {start : Nat} {path : Text} {kind : Kind} {object : Int}
    (from_ : origin d path = start) (there : tree.history.Linked start) (nonempty : path ≠ [])
    (plain : tree.store.ReadsPlainly d path) (denotes : tree.store.Denotes d path kind object) :
    ∃ id : Nat, object = id ∧ (tree.history.parse start path).1 = 0 ∧
      (tree.history.parse start path).2.id = id ∧
        (tree.history.parse start path).2.parentId =
          if path = ['/'] then ROOT_PARENT_ID else (tree.history.parent id : Int) := by
  unfold History.parse
  cases located : locate path with
  | none =>
    obtain rfl := (locate_none located).resolve_left nonempty
    refine ⟨0, ?_, rfl, rfl, rfl⟩
    cases denotes with
    | folder walk =>
      cases walk
      rfl
    | file named => exact absurd rfl named
  | some location =>
    have bare : path ≠ ['/'] := by
      rintro rfl
      exact absurd located (by simp [show locate ['/'] = none by decide])
    obtain ⟨m, id, walk, rfl, named, look⟩ := denotes_lookup from_ there located plain denotes
    refine ⟨id, rfl, ?_⟩
    rw [if_neg bare]
    simp only [walk, History.parseIn, if_neg named, look]
    cases kind with
    | folder => exact ⟨trivial, rfl, rfl⟩
    | file =>
      obtain ⟨entry, held, _, parent⟩ :=
        Journal.mem_children.mp (History.mem_of_findFile (History.findFile_of_lookup look)).1
      have above : tree.history.parent id = m := by rw [History.parent, Journal.parent_of_entry held, parent]
      exact ⟨trivial, rfl, congrArg Nat.cast above.symm⟩

end Tree

theorem Store.Denotes.bare {store : Store} {d object : Int} {kind : Kind}
    (denotes : store.Denotes d ['/'] kind object) : kind = .folder ∧ object = ROOT_FOLDER_ID := by
  cases denotes with
  | folder walk =>
    cases walk
    exact ⟨rfl, rfl⟩
  | file named => exact absurd rfl named

end RedisVfs
