import RedisVfs.Properties.Rerouting
import RedisVfs.Refinement.Stating

set_option autoImplicit false

namespace RedisVfs

open CString Directory

def Store.Reports (store : Store) (context : FsContext) (path : Text) (kind : Kind) (id : Int) : Prop :=
  ∃ info, (stat context path).run execute store = (.ok info, store) ∧ info.exists_ = true ∧
    info.type = some kind.itemType ∧ info.id = id

-- The name that the parser looked up; what is stored runs on to the end of the path.
def VfsPathParserState.lastName (parserState : VfsPathParserState) (fullPath : Text) : Text :=
  (fullPath.drop parserState.nameOffset).take parserState.nameLength

-- No file hides the new folder and the folders on the path stay what they were, or the path leads
-- into the new folder and stays there.
def Store.FolderReadsBack (store : Store) (fullPath : Text) (parserState : VfsPathParserState) : Prop :=
  let word := parserState.lastName fullPath
  let name := fullPath.drop parserState.nameOffset
  let folders := fullPath.take parserState.nameOffset
  (Proper word ∧ ¬ store.view.Shadowed parserState.parentId word ∧
      store.Undisturbed .folder parserState.parentId name 0 folders) ∨
    word = ['.'] ∧ ∃ before caught n, pathWords folders = before ++ caught :: List.replicate n ['.'] ∧
      store.Resolves 0 (pathOf folders before) parserState.parentId ∧
        Kind.folder.catches name caught ∧
          store.Undisturbed .folder parserState.parentId name 0 (pathOf folders before)

-- The path does not end in '/', no older file has the name, the name is proper or in the root, and
-- no folder on the path is hidden.
def Store.FileReadsBack (store : Store) (fullPath : Text) (parserState : VfsPathParserState) : Prop :=
  let word := parserState.lastName fullPath
  let name := fullPath.drop parserState.nameOffset
  let folders := fullPath.take parserState.nameOffset
  fullPath.getLast? ≠ some '/' ∧
    some word ∉ (store.files parserState.parentId).map store.fileName ∧
      (Proper word ∨ store.Resolves 0 folders 0) ∧
        store.Undisturbed .file parserState.parentId name 0 folders

def Store.ReadsBack (store : Store) : Kind → Text → VfsPathParserState → Prop
  | .folder => store.FolderReadsBack
  | .file => store.FileReadsBack

namespace History

def parentFor (history : History) (location : Location) (d : Nat) : Nat :=
  match history.lookup d location.last location.slash with
  | some (.folder, id) => history.parent id
  | _ => d

theorem parseIn_named (history : History) (d : Nat) {location : Location} (named : location.last ≠ []) :
    (history.parseIn location d).nameOffset = location.offset ∧
      (history.parseIn location d).nameLength = location.last.length ∧
        (history.parseIn location d).parentId = history.parentFor location d := by
  unfold parseIn parentFor
  rw [if_neg named]
  split
  next absent => simp [absent]
  next found => simp [found]
  next found => simp [found]

theorem parentFor_proper (history : History) (d : Nat) {location : Location}
    (proper : Proper location.last) : history.parentFor location d = d := by
  unfold parentFor lookup
  cases history.findFile d location.last location.slash with
  | some id => rfl
  | none =>
    rw [folderNamed_proper proper]
    cases found : history.findFolder d location.last with
    | none => rfl
    | some id => exact findFolder_parent found

theorem Linked.parentFor {history : History} {location : Location} {d : Nat}
    (linked : history.Linked d) : history.Linked (history.parentFor location d) := by
  unfold History.parentFor
  split
  next look => exact (linked.lookup look).parent
  next => exact linked

end History

namespace Tree

variable (tree : Tree)

theorem parentFor_dotted {location : Location} {d : Nat} (linked : tree.history.Linked d)
    (named : location.last ≠ []) (noFile : tree.history.findFile d location.last location.slash = none)
    (same : tree.history.parentFor location d = d) : Proper location.last ∨ d = 0 := by
  by_contra other
  obtain ⟨dotted, nonroot⟩ := not_or.mp other
  have lower := (tree.parent_lists linked nonroot).2
  have higher : tree.history.parent (tree.history.parent d) ≤ tree.history.parent d := by
    by_cases root : tree.history.parent d = 0
    · rw [root]
      simp [History.parent]
    · exact (tree.parent_lists linked.parent root).2.le
  unfold History.parentFor History.lookup at same
  rw [noFile] at same
  by_cases dot : location.last = ['.']
  · simp only [History.folderNamed, dot, if_true, Option.map_some] at same
    omega
  · by_cases dots : location.last = ['.', '.']
    · simp only [History.folderNamed, dots, if_true] at same
      simp at same
      omega
    · exact dotted ⟨named, dot, dots⟩

theorem parentFor_root {location : Location} (named : location.last ≠ []) :
    tree.history.parentFor location 0 = 0 := by
  by_cases proper : Proper location.last
  · exact History.parentFor_proper _ _ proper
  · unfold History.parentFor History.lookup
    cases tree.history.findFile 0 location.last location.slash with
    | some id => rfl
    | none =>
      by_cases dot : location.last = ['.']
      · simp [History.folderNamed, dot, History.parent]
      · have dots : location.last = ['.', '.'] := by
          by_contra dots
          exact proper ⟨named, dot, dots⟩
        simp [History.folderNamed, dots, History.parent]

theorem reports_iff {cwd body : Text} (start : tree.history.view.Within (· < 2 ^ 31) 0 (components cwd))
    (within : PathWithin tree.history.view (· < 2 ^ 31) 0 ('/' :: body)) (kind : Kind) (id : Nat) :
    tree.store.Reports { cwd := '/' :: cwd } ('/' :: body) kind id ↔
      tree.history.objectAt body = some (kind, id) := by
  unfold Store.Reports
  rw [tree.stat_run start within]
  cases found : tree.history.objectAt body with
  | none => simp [History.dirItemInfo]
  | some object =>
    obtain ⟨kind', id'⟩ := object
    cases kind' <;> cases kind <;> simp [History.dirItemInfo, Kind.itemType]

end Tree

theorem parseIn_texts (tree : Tree) (e : Nat) {body : Text} {location : Location}
    (located : locate ('/' :: body) = some location) (named : location.last ≠ []) :
    let parserState := tree.history.parseIn location e
    parserState.lastName ('/' :: body) = location.last ∧
      ('/' :: body).drop parserState.nameOffset = location.last ++ trail location.slash ∧
        ('/' :: body).take parserState.nameOffset = pathOf ('/' :: body) location.folders := by
  obtain ⟨offset, length, _⟩ := History.parseIn_named tree.history e named
  have name : ('/' :: body).drop location.offset = location.last ++ trail location.slash := by
    rw [(locate_some located).1]
    exact location.drop_offset
  simp only [VfsPathParserState.lastName, offset, length, name]
  exact ⟨List.take_left, trivial, Location.take_offset located⟩

section Conditions

variable {tree : Tree} {body : Text} {location : Location} {e : Nat}
  (located : locate ('/' :: body) = some location)
  (walk : tree.history.walk 0 location.folders = some e) (named : location.last ≠ [])
  (within : tree.history.view.Within (· < 2 ^ 31) 0 location.folders)

include located named within

theorem resolves_place_iff {words after : List Text} (split : location.folders = words ++ after) :
    tree.store.Resolves 0 (pathOf ('/' :: body) words) (tree.history.parseIn location e).parentId ↔
      tree.history.walk 0 words = some (tree.history.parentFor location e) := by
  obtain ⟨more, whole⟩ := Location.pathWords located
  rw [split, List.append_assoc] at whole
  have start : origin ((0 : Nat) : Int) (pathOf ('/' :: body) words) = ((0 : Nat) : Int) := by
    simp [origin]
  have few : tree.history.view.Within (· < 2 ^ 31) 0 (pathWords (pathOf ('/' :: body) words)) := by
    rw [pathOf_words whole]
    exact (split ▸ within).start
  apply (tree.resolves_iff start .root few _).trans
  rw [pathOf_words whole, (History.parseIn_named _ _ named).2.2]
  exact asId_eq_natCast

variable (ranged : Ranged tree.history.length (tree.history.parseIn location e).parentId)

include walk ranged

theorem undisturbed_place_iff {words after : List Text} (split : location.folders = words ++ after)
    (kind : Kind) (name : Text) :
    tree.store.Undisturbed kind (tree.history.parseIn location e).parentId name 0
        (pathOf ('/' :: body) words) ↔
      tree.history.Undisturbed ⟨kind, tree.history.parentFor location e, name⟩ 0 words := by
  obtain ⟨more, whole⟩ := Location.pathWords located
  rw [split, List.append_assoc] at whole
  have start : origin ((0 : Nat) : Int) (pathOf ('/' :: body) words) = ((0 : Nat) : Int) := by
    simp [origin]
  have parent := (History.parseIn_named tree.history e named).2.2
  have linked : tree.history.Linked (tree.history.parentFor location e) :=
    (History.Linked.walk .root walk).parentFor
  rw [split, History.walk_append] at walk
  obtain ⟨m, first, _⟩ := Option.bind_eq_some_iff.mp walk
  have read : tree.history.walk 0 (pathWords (pathOf ('/' :: body) words)) = some m := by
    rw [pathOf_words whole]
    exact first
  have few : tree.history.view.Within (· < 2 ^ 31) 0 (pathWords (pathOf ('/' :: body) words)) := by
    rw [pathOf_words whole]
    exact (split ▸ within).start
  refine (tree.undisturbed_iff start .root few ranged read).trans ?_
  rw [pathOf_words whole, parent, tree.number linked.le]

theorem folderReadsBack_iff :
    tree.store.FolderReadsBack ('/' :: body) (tree.history.parseIn location e) ↔
      (Proper location.last ∧
          tree.history.findFile (tree.history.parentFor location e) location.last true = none ∧
          tree.history.Undisturbed ⟨.folder, tree.history.parentFor location e,
            location.last ++ trail location.slash⟩ 0 location.folders) ∨
        location.last = ['.'] ∧ ∃ before caught n,
          location.folders = before ++ caught :: List.replicate n ['.'] ∧
            tree.history.walk 0 before = some (tree.history.parentFor location e) ∧
              Kind.folder.catches (location.last ++ trail location.slash) caught ∧
                tree.history.Undisturbed ⟨.folder, tree.history.parentFor location e,
                  location.last ++ trail location.slash⟩ 0 before := by
  obtain ⟨word, name, folders⟩ := parseIn_texts tree e located named
  obtain ⟨more, whole⟩ := Location.pathWords located
  have parent := (History.parseIn_named tree.history e named).2.2
  have linked : tree.history.Linked (tree.history.parentFor location e) :=
    (History.Linked.walk .root walk).parentFor
  have clear : ¬ tree.store.view.Shadowed (tree.history.parseIn location e).parentId location.last ↔
      tree.history.findFile (tree.history.parentFor location e) location.last true = none := by
    rw [parent, tree.view_embeds.shadowed_iff linked, History.shadowed_iff, not_not]
  have again (words : List Text) : pathOf (pathOf ('/' :: body) location.folders) words =
      pathOf ('/' :: body) words := by
    rw [pathOf, pathOf_lead whole, pathOf]
  unfold Store.FolderReadsBack
  simp only [word, name, folders, clear, again, pathOf_words whole]
  refine or_congr (and_congr_right fun _ => and_congr_right fun _ => ?_) (and_congr_right fun _ =>
    exists_congr fun before => exists_congr fun caught => exists_congr fun n =>
      and_congr_right fun split => and_congr ?_ (and_congr_right fun _ => ?_))
  · exact undisturbed_place_iff located walk named within ranged (List.append_nil _).symm .folder _
  · exact resolves_place_iff located named within split
  · exact undisturbed_place_iff located walk named within ranged split .folder _

theorem fileReadsBack_iff :
    tree.store.FileReadsBack ('/' :: body) (tree.history.parseIn location e) ↔
      location.slash = false ∧
        tree.history.findFile (tree.history.parentFor location e) location.last false = none ∧
          (Proper location.last ∨ e = 0) ∧
            tree.history.Undisturbed ⟨.file, tree.history.parentFor location e,
              location.last ++ trail location.slash⟩ 0 location.folders := by
  obtain ⟨word, name, folders⟩ := parseIn_texts tree e located named
  obtain ⟨more, whole⟩ := Location.pathWords located
  have parent := (History.parseIn_named tree.history e named).2.2
  have linked : tree.history.Linked (tree.history.parentFor location e) :=
    (History.Linked.walk .root walk).parentFor
  have open_ : ('/' :: body).getLast? ≠ some '/' ↔ location.slash = false := by
    rw [(locate_some located).1, Ne, Location.getLast?, Bool.not_eq_true]
  have unlisted : some location.last ∉
      (tree.store.files (tree.history.parseIn location e).parentId).map tree.store.fileName ↔
        tree.history.findFile (tree.history.parentFor location e) location.last false = none := by
    have files := tree.view_embeds.files _ linked
    change (tree.store.files _).map tree.store.fileName = _ at files
    rw [parent, files, History.findFile_eq_none]
    simp [History.view, fileNamed]
  have root : tree.store.Resolves 0 (pathOf ('/' :: body) location.folders) 0 ↔ e = 0 := by
    have start : origin ((0 : Nat) : Int) (pathOf ('/' :: body) location.folders) = ((0 : Nat) : Int) := by
      simp [origin]
    have few : tree.history.view.Within (· < 2 ^ 31) 0
        (pathWords (pathOf ('/' :: body) location.folders)) := by rwa [pathOf_words whole]
    apply (tree.resolves_iff start .root few 0).trans
    rw [pathOf_words whole, walk]
    simp [asId]
  unfold Store.FileReadsBack
  simp only [word, name, folders, open_, unlisted, root]
  refine and_congr_right fun _ => and_congr_right fun _ => and_congr_right fun _ => ?_
  exact undisturbed_place_iff located walk named within ranged (List.append_nil _).symm .file _

end Conditions

theorem parse_located {history : History} {body : Text} {location : Location}
    {parserState : VfsPathParserState} (located : locate ('/' :: body) = some location)
    (parse : history.parse 0 ('/' :: body) = (0, parserState)) :
    ∃ e, history.walk 0 location.folders = some e ∧ parserState = history.parseIn location e := by
  unfold History.parse at parse
  simp only [located] at parse
  split at parse
  · simp at parse
  next e walk => exact ⟨e, walk, (congrArg Prod.snd parse).symm⟩

section Made

variable {tree tree' : Tree} {kind : Kind} {body : Text}

theorem unnamed_lost {parserState : VfsPathParserState}
    (parse : tree.history.parse 0 ('/' :: body) = (0, parserState))
    (unnamed : parserState.nameLength = 0)
    (grown : tree'.history = ⟨kind, unsigned parserState.parentId,
      ('/' :: body).drop parserState.nameOffset⟩ :: tree.history) :
    tree'.history.objectAt body ≠ some (kind, tree.history.length + 1) ∧
      ¬ tree.store.ReadsBack kind ('/' :: body) parserState := by
  have word : parserState.lastName ('/' :: body) = [] := by
    rw [VfsPathParserState.lastName, unnamed, List.take_zero]
  have noFolder : ¬ tree.store.FolderReadsBack ('/' :: body) parserState := by
    unfold Store.FolderReadsBack
    simp [word, Proper]
  cases located : locate ('/' :: body) with
  | none =>
    obtain rfl := locate_root located
    refine ⟨by simp [History.objectAt, located], ?_⟩
    cases kind with
    | folder => exact noFolder
    | file => exact fun back => back.1 rfl
  | some location =>
    obtain ⟨e, walk, rfl⟩ := parse_located located parse
    have empty : location.last = [] := by
      by_contra named
      rw [(History.parseIn_named _ _ named).2.1] at unnamed
      exact named (List.length_eq_zero_iff.mp unnamed)
    have slash := location.ends empty
    cases kind with
    | folder =>
      refine ⟨fun found => ?_, noFolder⟩
      rw [tree'.folder_at_iff located, Tree.newest_folder_iff grown rfl .root walk] at found
      have parent : unsigned (tree.history.parseIn location e).parentId = nowhere := by
        rw [History.parseIn, if_pos empty]
        rfl
      rcases found with ⟨_, _, here, _⟩ | ⟨dot, _⟩
      · exact tree.linked_ne_nowhere (History.Linked.walk .root walk) (here.symm.trans parent)
      · simp [empty] at dot
    | file =>
      refine ⟨fun found => ?_, fun back => back.1 ?_⟩
      · simp [tree'.file_at_iff located, slash] at found
      · rw [(locate_some located).1]
        exact Location.getLast?.mpr slash

variable {location : Location} {e : Nat}

theorem folder_found_iff (located : locate ('/' :: body) = some location)
    (walk : tree.history.walk 0 location.folders = some e) (named : location.last ≠ [])
    (within : tree.history.view.Within (· < 2 ^ 31) 0 location.folders)
    (ranged : Ranged tree.history.length (tree.history.parseIn location e).parentId)
    (grown : tree'.history = ⟨.folder, tree.history.parentFor location e,
      location.last ++ trail location.slash⟩ :: tree.history) :
    tree'.history.objectAt body = some (.folder, tree.history.length + 1) ↔
      tree.store.FolderReadsBack ('/' :: body) (tree.history.parseIn location e) := by
  rw [tree'.folder_at_iff located, Tree.newest_folder_iff grown rfl .root walk,
    Tree.walk_to_newest_iff grown rfl .root walk, folderReadsBack_iff located walk named within ranged]
  apply or_congr_left
  constructor
  · rintro ⟨dot, dots, here, _, noFile, calm⟩
    refine ⟨⟨named, dot, dots⟩, ?_, calm⟩
    rwa [show tree.history.parentFor location e = e from here]
  · rintro ⟨proper, noFile, calm⟩
    have here := History.parentFor_proper tree.history e proper
    exact ⟨proper.2.1, proper.2.2, here, List.prefix_append _ _, here ▸ noFile, calm⟩

theorem file_found_iff (located : locate ('/' :: body) = some location)
    (walk : tree.history.walk 0 location.folders = some e) (named : location.last ≠ [])
    (within : tree.history.view.Within (· < 2 ^ 31) 0 location.folders)
    (ranged : Ranged tree.history.length (tree.history.parseIn location e).parentId)
    (grown : tree'.history = ⟨.file, tree.history.parentFor location e,
      location.last ++ trail location.slash⟩ :: tree.history) :
    tree'.history.objectAt body = some (.file, tree.history.length + 1) ↔
      tree.store.FileReadsBack ('/' :: body) (tree.history.parseIn location e) := by
  have linked : tree.history.Linked e := History.Linked.walk .root walk
  rw [tree'.file_at_iff located, Tree.newest_file_iff grown rfl .root walk,
    fileReadsBack_iff located walk named within ranged]
  refine and_congr_right fun slash => ?_
  have bare : location.last ++ trail location.slash = location.last := by
    rw [slash]
    exact List.append_nil _
  constructor
  · rintro ⟨here, _, noFile, calm⟩
    refine ⟨?_, tree.parentFor_dotted linked named ?_ here, calm⟩
    · rwa [show tree.history.parentFor location e = e from here]
    · rwa [slash]
  · rintro ⟨noFile, kept, calm⟩
    have here : tree.history.parentFor location e = e := by
      rcases kept with proper | rfl
      · exact History.parentFor_proper _ _ proper
      · exact tree.parentFor_root named
    exact ⟨here, bare, here ▸ noFile, calm⟩

end Made

end RedisVfs
